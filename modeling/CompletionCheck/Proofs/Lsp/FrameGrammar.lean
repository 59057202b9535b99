import CompletionCheck.Proofs.Lsp.Feeding
import CompletionCheck.Proofs.Lsp.HeaderLines

/-!
# The grammar of a stream

The reader is a machine over bytes; what it accepts can be said without it.  A stream is blank lines
and frames (`Framed`), and behind them a tail at which reading stops (`Tail`).  A frame is headers, of
which the last that gives a length counts (`Block`), a blank line, and a body of exactly that many
bytes which is one JSON text (`Carries`).  The tail says why: nothing but carriage returns is a clean
end, and anything else is one failure, at the first place where the stream can no longer be blank lines
and frames.

Both directions are proved.  Bytes of the grammar drive the reader where the grammar says
(`Framed.feed`, `Offence.feed`, `Tail.readAll`).  In turn, what the reader remembers always accounts
for the bytes since the last frame (`Accounts`): the headers, and the unfinished line or body.  One byte
keeps that (`Accounts.step`), so it holds at the end of every stream, and there it gives the tail.  The
grammar is thereby shown to leave no stream out and to give each stream one reading only; neither
would be easy to see from the grammar alone, where a long body may well contain frames.

Two of the failures are of one kind: a body is said to have a length that is not met, because no memory
can hold it or because the stream is too short (`Wanting`).  Where that length stands can be said without
the tail (`Declares`), also when the stream ends in the middle of the blank line before the body.
-/

namespace CompletionCheck.Lsp

/-- A line of carriage returns alone, with its line feed. -/
def blankLine (k : Nat) : List UInt8 :=
  List.replicate k 13 ++ [10]

/-- Headers with their line feeds, and the length that the last of those with a length gives. -/
inductive Block : List UInt8 → Option Nat → Prop
  | nil : Block [] none
  | header {block line : List UInt8} {declared given : Option Nat} (before : Block block declared)
      (whole : 10 ∉ line) (header : Header line given) :
      Block (block ++ (line ++ [10])) (given.or declared)

/-- A body that is one JSON text. -/
def Carries (body : List UInt8) (message : Json) : Prop :=
  ∃ text, body = Text.encode text ∧ Json.parse? text = some message

/-- Blank lines and frames, and the messages that the frames carry. -/
inductive Framed : List UInt8 → List Json → Prop
  | nil : Framed [] []
  | blank {front : List UInt8} {messages : List Json} (k : Nat) (before : Framed front messages) :
      Framed (front ++ blankLine k) messages
  | frame {front block body : List UInt8} {messages : List Json} {message : Json} (k : Nat)
      (before : Framed front messages) (headers : Block block (some body.length))
      (held : body.length ≤ Reader.maxLength) (carries : Carries body message) :
      Framed (front ++ (block ++ (blankLine k ++ body))) (messages ++ [message])

/-- Bytes behind the frames at whose last byte reading stops, whatever follows. -/
inductive Offence : List UInt8 → Stop → Prop
  | line {block line : List UInt8} {declared : Option Nat} {e : ServiceError}
      (headers : Block block declared) (whole : 10 ∉ line) (fault : LineFault line e) :
      Offence (block ++ (line ++ [10])) (.failed e)
  | missingLength {block : List UInt8} (k : Nat) (headers : Block block none) (nonempty : block ≠ []) :
      Offence (block ++ blankLine k) (.failed (.protocol .missingLength))
  | tooLong {block : List UInt8} {n : Nat} (k : Nat) (headers : Block block (some n))
      (long : Reader.maxLength < n) : Offence (block ++ blankLine k) .tooLong
  | invalidBody {block body : List UInt8} (k : Nat) (headers : Block block (some body.length))
      (held : body.length ≤ Reader.maxLength) (invalid : ∀ message, ¬ Carries body message) :
      Offence (block ++ (blankLine k ++ body)) (.failed (.protocol .invalidBody))

/-- Bytes behind the frames, with no unfinished line, after which a stream has failed. -/
inductive Breaks : List UInt8 → Stop → Prop
  | offence {bytes : List UInt8} {stop : Stop} (h : Offence bytes stop) (after : List UInt8) :
      Breaks (bytes ++ after) stop
  | insideHeader {block : List UInt8} {declared : Option Nat} (headers : Block block declared)
      (nonempty : block ≠ []) : Breaks block (.failed (.protocol .endInsideHeader))
  | shortBody {block body : List UInt8} {n : Nat} (k : Nat) (headers : Block block (some n))
      (held : n ≤ Reader.maxLength) (short : body.length < n) :
      Breaks (block ++ (blankLine k ++ body)) (.failed (.io .unexpectedEof))

/-- What stands behind the frames up to the end of a stream, and why reading stops there.  A last
line without a line feed counts as a line; between frames, carriage returns alone are no line yet. -/
inductive Tail : List UInt8 → Stop → Prop
  | clean (k : Nat) : Tail (List.replicate k 13) .ended
  | broken {rest : List UInt8} {stop : Stop} (h : Breaks rest stop) : Tail rest stop
  | unfinished {block line : List UInt8} {declared : Option Nat} {stop : Stop}
      (headers : Block block declared) (nonempty : line ≠ []) (whole : 10 ∉ line)
      (h : Breaks (block ++ (line ++ [10])) stop) : Tail (block ++ line) stop

namespace Reader

/-! ## Lines -/

theorem newline_not_mem_returns (k : Nat) : (10 : UInt8) ∉ List.replicate k 13 := fun h =>
  absurd (List.eq_of_mem_replicate h) (by decide)

theorem endLine_header {line : List UInt8} {given : Option Nat} (h : Header line given) (seen : Bool)
    (length : Option Nat) :
    endLine line seen length = (header [] true (given.or length), none) := by
  rw [endLine, ofBytes_header h]
  cases given <;> rfl

theorem feed_blankLine (k : Nat) : start.feed (blankLine k) = (start, []) := by
  rw [blankLine, start, feed_line _ (newline_not_mem_returns k), endLine, ofBytes_blank]
  rfl

theorem feed_block {block : List UInt8} {declared : Option Nat} (h : Block block declared)
    (seen : Bool) (length : Option Nat) :
    (header [] seen length).feed block
      = (header [] (seen || !block.isEmpty) (declared.or length), []) := by
  induction h with
  | nil => simp [feed_nil]
  | header before whole header ih =>
      rw [feed_append, ih]
      dsimp only
      rw [feed_line _ whole, endLine_header header]
      simp [Option.or_assoc]

theorem feed_headers {block : List UInt8} {declared : Option Nat} (h : Block block declared)
    (hsome : block ≠ []) (k : Nat) :
    start.feed (block ++ blankLine k)
      = ((endHeader declared).1, (endHeader declared).2.toList) := by
  rw [feed_append, start, feed_block h, blankLine]
  dsimp only
  rw [feed_line _ (newline_not_mem_returns k), endLine, ofBytes_blank]
  simp [hsome]

theorem ne_nil_of_declared {block : List UInt8} {n : Nat} (h : Block block (some n)) :
    block ≠ [] := by
  rintro rfl
  generalize hbytes : ([] : List UInt8) = bytes at h
  generalize hlength : some n = length at h
  cases h with
  | nil => cases hlength
  | header => simp at hbytes

/-! ## Bodies and their lengths -/

theorem endHeader_of_held {n : Nat} (held : n + 1 ≤ maxLength) :
    endHeader (some (n + 1)) = (body n [], none) := by
  rw [endHeader, if_neg (Nat.not_lt.mpr held)]

theorem endHeader_of_long {n : Nat} (long : maxLength < n) :
    endHeader (some n) = (stopped .tooLong, none) := by
  cases n with
  | zero => exact absurd long (Nat.not_lt_zero _)
  | succ n => rw [endHeader, if_pos long]

theorem feed_bodied {block bytes : List UInt8} (headers : Block block (some bytes.length))
    (held : bytes.length ≤ maxLength) (k : Nat) :
    start.feed (block ++ (blankLine k ++ bytes))
      = ((endBody bytes).1, (endBody bytes).2.toList) := by
  rw [← List.append_assoc, feed_append, feed_headers headers (ne_nil_of_declared headers)]
  cases bytes with
  | nil => simp [endHeader, feed_nil]
  | cons b bytes =>
      rw [List.length_cons] at held ⊢
      rw [endHeader_of_held held]
      dsimp only
      rw [feed_body _ _ _ List.length_cons]
      rfl

theorem bind_eq_some_iff_carries {bytes : List UInt8} {message : Json} :
    (Text.decode? bytes).bind Json.parse? = some message ↔ Carries bytes message := by
  rw [Option.bind_eq_some_iff]
  simp only [Text.decode?_eq_some_iff, Carries]

theorem endBody_of_carries {bytes : List UInt8} {message : Json} (h : Carries bytes message) :
    endBody bytes = (start, some message) := by
  rw [endBody, bind_eq_some_iff_carries.mpr h]

theorem endBody_of_invalid {bytes : List UInt8} (h : ∀ message, ¬ Carries bytes message) :
    endBody bytes = (fault .invalidBody, none) := by
  have hnone : (Text.decode? bytes).bind Json.parse? = none :=
    Option.eq_none_iff_forall_ne_some.mpr fun message hm =>
      h message (bind_eq_some_iff_carries.mp hm)
  rw [endBody, hnone]

theorem not_carries_nil (message : Json) : ¬ Carries [] message := by
  rw [← bind_eq_some_iff_carries]
  intro h
  cases h

end Reader

open Reader

/-! ## From the grammar to the reader -/

theorem Framed.feed {front : List UInt8} {messages : List Json} (h : Framed front messages) :
    start.feed front = (start, messages) := by
  induction h with
  | nil => rfl
  | blank k before ih =>
      rw [feed_append, ih]
      dsimp only
      rw [feed_blankLine, List.append_nil]
  | frame k before headers held carries ih =>
      rw [feed_append, ih]
      dsimp only
      rw [feed_bodied headers held, endBody_of_carries carries]
      rfl

theorem Offence.feed {bytes : List UInt8} {stop : Stop} (h : Offence bytes stop) :
    start.feed bytes = (stopped stop, []) := by
  cases h with
  | line headers whole fault =>
      rw [feed_append, start, feed_block headers]
      dsimp only
      rw [feed_line _ whole, endLine_fault fault]
      rfl
  | missingLength k headers nonempty =>
      rw [feed_headers headers nonempty]
      rfl
  | tooLong k headers long =>
      rw [feed_headers headers (ne_nil_of_declared headers), endHeader_of_long long]
      rfl
  | invalidBody k headers held invalid =>
      rw [feed_bodied headers held, endBody_of_invalid invalid]
      rfl

theorem Breaks.feed {rest : List UInt8} {stop : Stop} (h : Breaks rest stop) :
    ∃ r, start.feed rest = (r, []) ∧ r.stopAtEnd = stop ∧ r.finish = stop := by
  cases h with
  | offence h after =>
      rw [feed_append, h.feed]
      dsimp only
      rw [feed_stopped]
      exact ⟨_, rfl, rfl, rfl⟩
  | insideHeader headers nonempty =>
      rw [start, feed_block headers]
      simp only [List.isEmpty_eq_false_iff.mpr nonempty, Bool.not_false, Bool.or_true]
      exact ⟨_, rfl, rfl, rfl⟩
  | @shortBody block bytes n k headers held short =>
      obtain ⟨n, rfl⟩ : ∃ m, n = m + 1 := ⟨n - 1, by omega⟩
      rw [← List.append_assoc, feed_append, feed_headers headers (ne_nil_of_declared headers),
        endHeader_of_held held]
      dsimp only
      rw [feed_body_open bytes n [] (by omega)]
      exact ⟨_, rfl, rfl, rfl⟩

theorem feed_unfinished {block line : List UInt8} {declared : Option Nat}
    (headers : Block block declared) (whole : 10 ∉ line) :
    start.feed (block ++ line) = (header line.reverse (!block.isEmpty) declared, []) := by
  rw [feed_append, start, feed_block headers]
  dsimp only
  rw [feed_line_open line whole]
  simp

theorem finish_unfinished {line : List UInt8} (nonempty : line ≠ []) (seen : Bool)
    (length : Option Nat) :
    (header line.reverse seen length).finish = (endLine line seen length).1.stopAtEnd := by
  obtain ⟨b, bytes, hline⟩ := List.exists_cons_of_ne_nil (mt List.reverse_eq_nil_iff.mp nonempty)
  rw [hline, finish, ← hline, List.reverse_reverse]

theorem Tail.readAll {rest : List UInt8} {stop : Stop} (h : Tail rest stop) :
    readAll rest = ([], stop) := by
  cases h with
  | clean k =>
      have hfeed := feed_unfinished .nil (newline_not_mem_returns k)
      rw [List.nil_append] at hfeed
      rw [readAll_eq, hfeed]
      cases k with
      | zero => rfl
      | succ k =>
          dsimp only
          rw [finish_unfinished (by simp), endLine, ofBytes_blank]
          rfl
  | broken h =>
      obtain ⟨r, hfeed, -, hstop⟩ := h.feed
      rw [readAll_eq, hfeed]
      dsimp only
      rw [hstop]
  | @unfinished block line declared stop headers nonempty whole h =>
      -- the line feed that is missing would have led to the same place
      obtain ⟨r, hfeed, hstop, -⟩ := h.feed
      have hline : (endLine line (!block.isEmpty) declared).1 = r := by
        rw [feed_append, start, feed_block headers] at hfeed
        simp only [Bool.false_or, Option.or_none] at hfeed
        rw [feed_line line whole] at hfeed
        exact (Prod.mk.inj hfeed).1
      rw [readAll_eq, feed_unfinished headers whole]
      dsimp only
      rw [finish_unfinished nonempty, hline, hstop]

/-! ## From the reader to the grammar -/

/-- What a reader remembers accounts for the bytes since the last frame. -/
inductive Accounts : Reader → List UInt8 → Prop
  | header {block line : List UInt8} {declared : Option Nat} (headers : Block block declared)
      (whole : 10 ∉ line) : Accounts (.header line.reverse (!block.isEmpty) declared) (block ++ line)
  | body {block collected : List UInt8} {left n : Nat} (k : Nat) (headers : Block block (some n))
      (length : collected.length + left + 1 = n) (held : n ≤ maxLength) :
      Accounts (.body left collected.reverse) (block ++ (blankLine k ++ collected))
  | stopped {bytes : List UInt8} {stop : Stop} (h : Offence bytes stop) (after : List UInt8) :
      Accounts (.stopped stop) (bytes ++ after)

/-- What a byte leads to: the reader still has the bytes since the last frame to account for, or
stands behind a blank line or a frame. -/
def Advances (bytes : List UInt8) (outcome : Reader × Option Json) : Prop :=
  (outcome.2 = none ∧ Accounts outcome.1 bytes) ∨
    (outcome.1 = start ∧ Framed bytes outcome.2.toList)

theorem accounts_start : Accounts start [] :=
  .header .nil List.not_mem_nil

theorem accounts_offence {bytes : List UInt8} {stop : Stop} (h : Offence bytes stop) :
    Accounts (.stopped stop) bytes := by
  have := Accounts.stopped h []
  rwa [List.append_nil] at this

theorem advances_endBody {block bytes : List UInt8} (k : Nat)
    (headers : Block block (some bytes.length)) (held : bytes.length ≤ maxLength) :
    Advances (block ++ (blankLine k ++ bytes)) (endBody bytes) := by
  by_cases hcarries : ∃ message, Carries bytes message
  · obtain ⟨message, hmessage⟩ := hcarries
    rw [endBody_of_carries hmessage]
    exact .inr ⟨rfl, .frame k .nil headers held hmessage⟩
  · rw [endBody_of_invalid (not_exists.mp hcarries)]
    exact .inl ⟨rfl, accounts_offence (.invalidBody k headers held (not_exists.mp hcarries))⟩

/-- The blank line behind headers ends no frame: a body of no bytes is none. -/
theorem accounts_endHeader {block : List UInt8} {declared : Option Nat}
    (headers : Block block declared) (hsome : block ≠ []) (k : Nat) :
    (endHeader declared).2 = none ∧ Accounts (endHeader declared).1 (block ++ blankLine k) := by
  cases declared with
  | none => exact ⟨rfl, accounts_offence (.missingLength k headers hsome)⟩
  | some n =>
      by_cases hlong : maxLength < n
      · rw [endHeader_of_long hlong]
        exact ⟨rfl, accounts_offence (.tooLong k headers hlong)⟩
      · cases n with
        | zero =>
            have hoffence := Offence.invalidBody k headers (Nat.zero_le _) not_carries_nil
            rw [List.append_nil] at hoffence
            rw [endHeader, endBody_of_invalid not_carries_nil]
            exact ⟨rfl, accounts_offence hoffence⟩
        | succ n =>
            have hlength : ([] : List UInt8).length + n + 1 = n + 1 := by simp
            have haccounts := Accounts.body k headers hlength (Nat.not_lt.mp hlong)
            rw [List.append_nil] at haccounts
            rw [endHeader_of_held (Nat.not_lt.mp hlong)]
            exact ⟨rfl, haccounts⟩

theorem endLine_cases {block line : List UInt8} {declared : Option Nat}
    (headers : Block block declared) (whole : 10 ∉ line) :
    (block = [] ∧ ∃ k, line = List.replicate k 13) ∨
      (endLine line (!block.isEmpty) declared).2 = none ∧
        Accounts (endLine line (!block.isEmpty) declared).1 (block ++ (line ++ [10])) := by
  rcases line_cases whole with ⟨k, rfl⟩ | ⟨given, hheader⟩ | ⟨e, hfault⟩
  · by_cases hblock : block = []
    · exact .inl ⟨hblock, k, rfl⟩
    · have hend : endLine (List.replicate k 13) (!block.isEmpty) declared = endHeader declared := by
        rw [endLine, ofBytes_blank, List.isEmpty_eq_false_iff.mpr hblock]
        rfl
      rw [hend]
      exact .inr (accounts_endHeader headers hblock k)
  · have haccounts := Accounts.header (.header headers whole hheader) List.not_mem_nil
    rw [List.append_nil, List.isEmpty_eq_false_iff.mpr (by simp)] at haccounts
    rw [endLine_header hheader]
    exact .inr ⟨rfl, haccounts⟩
  · rw [endLine_fault hfault]
    exact .inr ⟨rfl, accounts_offence (.line headers whole hfault)⟩

theorem Accounts.step {r : Reader} {rest : List UInt8} (h : Accounts r rest) (b : UInt8) :
    Advances (rest ++ [b]) (r.step b) := by
  cases h with
  | @header block line declared headers whole =>
      rw [List.append_assoc, Reader.step]
      split
      · next hb =>
          subst hb
          rw [List.reverse_reverse]
          rcases endLine_cases headers whole with ⟨rfl, k, rfl⟩ | haccounts
          · rw [endLine, ofBytes_blank]
            exact .inr ⟨rfl, .blank k .nil⟩
          · exact .inl haccounts
      · next hb =>
          have hwhole : 10 ∉ line ++ [b] := by
            rw [List.mem_append, List.mem_singleton, not_or]
            exact ⟨whole, Ne.symm hb⟩
          have haccounts := Accounts.header headers hwhole
          rw [List.reverse_append] at haccounts
          exact .inl ⟨rfl, haccounts⟩
  | @body block collected left n k headers length held =>
      rw [List.append_assoc, List.append_assoc]
      cases left with
      | zero =>
          obtain rfl : (collected ++ [b]).length = n := by simpa using length
          rw [Reader.step, List.reverse_cons, List.reverse_reverse]
          exact advances_endBody k headers held
      | succ left =>
          have hlength : (collected ++ [b]).length + left + 1 = n := by
            rw [List.length_append, List.length_singleton]
            omega
          have haccounts := Accounts.body k headers hlength held
          rw [List.reverse_append] at haccounts
          exact .inl ⟨rfl, haccounts⟩
  | stopped h after =>
      rw [List.append_assoc]
      exact .inl ⟨rfl, .stopped h (after ++ [b])⟩

theorem Framed.append {front front' : List UInt8} {messages messages' : List Json}
    (h : Framed front messages) (h' : Framed front' messages') :
    Framed (front ++ front') (messages ++ messages') := by
  induction h' with
  | nil => simpa using h
  | blank k before ih =>
      rw [← List.append_assoc]
      exact .blank k ih
  | frame k before headers held carries ih =>
      rw [← List.append_assoc front, ← List.append_assoc messages]
      exact .frame k ih headers held carries

/-- However far a stream has been read, there are frames in front and an account of what follows. -/
theorem exists_framed_accounts (bytes : List UInt8) : ∃ front rest, bytes = front ++ rest ∧
    Framed front (start.feed bytes).2 ∧ Accounts (start.feed bytes).1 rest := by
  induction bytes using List.reverseRecOn with
  | nil => exact ⟨[], [], rfl, .nil, accounts_start⟩
  | append_singleton bytes b ih =>
      obtain ⟨front, rest, rfl, hframed, haccounts⟩ := ih
      rw [feed_concat]
      dsimp only
      rcases haccounts.step b with ⟨hnone, hstep⟩ | ⟨hstart, hstep⟩
      · refine ⟨front, rest ++ [b], List.append_assoc .., ?_, hstep⟩
        rw [hnone]
        simpa using hframed
      · refine ⟨front ++ (rest ++ [b]), [], by simp, hframed.append hstep, ?_⟩
        rw [hstart]
        exact accounts_start

theorem Accounts.breaks {r : Reader} {bytes : List UInt8} (h : Accounts r (bytes ++ [10])) :
    Breaks (bytes ++ [10]) r.stopAtEnd := by
  generalize hrest : bytes ++ [10] = rest at h ⊢
  cases h with
  | @header block line declared headers whole =>
      rcases List.eq_nil_or_concat line with rfl | ⟨front, b, rfl⟩
      · rw [List.append_nil] at hrest ⊢
        have hsome : block ≠ [] := by
          rintro rfl
          simp at hrest
        rw [List.isEmpty_eq_false_iff.mpr hsome]
        exact .insideHeader headers hsome
      · rw [List.concat_eq_append, ← List.append_assoc] at hrest
        obtain rfl : 10 = b := List.singleton_inj.mp (List.append_inj' hrest rfl).2
        exact absurd (by simp) whole
  | body k headers length held => exact .shortBody k headers held (by omega)
  | stopped h after => exact .offence h after

theorem Accounts.tail {r : Reader} {rest : List UInt8} (h : Accounts r rest) :
    Tail rest r.finish := by
  cases h with
  | @header block line declared headers whole =>
      by_cases hline : line = []
      · subst hline
        rw [List.append_nil]
        by_cases hblock : block = []
        · subst hblock
          exact .clean 0
        · rw [List.isEmpty_eq_false_iff.mpr hblock]
          exact .broken (.insideHeader headers hblock)
      · rw [finish_unfinished hline]
        rcases endLine_cases headers whole with ⟨rfl, k, rfl⟩ | ⟨-, haccounts⟩
        · rw [endLine, ofBytes_blank]
          exact .clean k
        · rw [← List.append_assoc] at haccounts
          have hbreaks := haccounts.breaks
          rw [List.append_assoc] at hbreaks
          exact .unfinished headers hline whole hbreaks
  | body k headers length held => exact .broken (.shortBody k headers held (by omega))
  | stopped h after => exact .broken (.offence h after)

/-! ## The grammar decides -/

theorem readAll_eq_iff {bytes : List UInt8} {messages : List Json} {stop : Stop} :
    readAll bytes = (messages, stop) ↔
      ∃ front rest, bytes = front ++ rest ∧ Framed front messages ∧ Tail rest stop := by
  constructor
  · intro h
    obtain ⟨front, rest, hbytes, hframed, haccounts⟩ := exists_framed_accounts bytes
    obtain ⟨rfl, rfl⟩ := Prod.mk.inj h
    exact ⟨front, rest, hbytes, hframed, haccounts.tail⟩
  · rintro ⟨front, rest, rfl, hframed, htail⟩
    have hrest := htail.readAll
    rw [readAll_eq] at hrest
    obtain ⟨hmessages, hstop⟩ := Prod.mk.inj hrest
    rw [readAll_eq, feed_append, hframed.feed]
    dsimp only
    rw [hmessages, hstop, List.append_nil]

theorem Tail.eq_returns {rest : List UInt8} (h : Tail rest .ended) :
    ∃ k, rest = List.replicate k 13 := by
  have hbreaks {bytes : List UInt8} (h : Breaks bytes .ended) : False := by
    cases h with
    | offence h => cases h
  cases h with
  | clean k => exact ⟨k, rfl⟩
  | broken h => exact (hbreaks h).elim
  | unfinished headers nonempty whole h => exact (hbreaks h).elim

/-! ## Lengths that are not met -/

/-- Headers that give a length, the blank line behind them, and what follows.  At the end of a stream
the blank line may lack its line feed, if it has a carriage return. -/
inductive Declares : List UInt8 → Nat → List UInt8 → Prop
  | whole {block after : List UInt8} {n : Nat} (k : Nat) (headers : Block block (some n)) :
      Declares (block ++ (blankLine k ++ after)) n after
  | last {block : List UInt8} {n : Nat} (k : Nat) (headers : Block block (some n)) :
      Declares (block ++ List.replicate (k + 1) 13) n []

/-- Why reading stops for want of a body of `n` bytes, when `left` bytes remain. -/
inductive Wanting (n left : Nat) : Stop → Prop
  | tooLong (long : maxLength < n) : Wanting n left .tooLong
  | short (held : n ≤ maxLength) (short : left < n) : Wanting n left (.failed (.io .unexpectedEof))

theorem Wanting.mono {n left less : Nat} {stop : Stop} (h : Wanting n left stop)
    (hless : less ≤ left) : Wanting n less stop := by
  cases h with
  | tooLong long => exact .tooLong long
  | short held short => exact .short held (Nat.lt_of_le_of_lt hless short)

theorem Block.ended {block : List UInt8} {declared : Option Nat} (h : Block block declared)
    (hsome : block ≠ []) : ∃ front, block = front ++ [10] := by
  cases h with
  | nil => exact absurd rfl hsome
  | header => exact ⟨_, (List.append_assoc ..).symm⟩

/-- The line feed that a last line lacks is none of the bytes of the headers before a blank line. -/
theorem declares_of_unfinished {bytes block line after : List UInt8} {n k : Nat}
    (nonempty : line ≠ []) (whole : 10 ∉ line) (headers : Block block (some n))
    (h : (bytes ++ line) ++ [10] = block ++ (blankLine k ++ after)) :
    ∃ behind, Declares (bytes ++ line) n behind ∧ behind.length ≤ after.length := by
  rcases List.eq_nil_or_concat after with rfl | ⟨behind, b, rfl⟩
  · rw [List.append_nil, blankLine, ← List.append_assoc] at h
    have hbytes := List.append_cancel_right h
    cases k with
    | zero =>
        -- nothing of a blank line is left, and the last line would end where the headers end
        obtain ⟨front, rfl⟩ := headers.ended (ne_nil_of_declared headers)
        obtain ⟨start, b, rfl⟩ := (List.eq_nil_or_concat line).resolve_left nonempty
        rw [List.replicate_zero, List.append_nil, List.concat_eq_append, ← List.append_assoc]
          at hbytes
        obtain rfl : b = 10 := List.singleton_inj.mp (List.append_inj' hbytes rfl).2
        exact absurd (by simp) whole
    | succ k => exact ⟨[], hbytes ▸ .last k headers, Nat.le_refl _⟩
  · rw [List.concat_eq_append, ← List.append_assoc (blankLine k), ← List.append_assoc block] at h
    have hbytes := (List.append_inj' h rfl).1
    exact ⟨behind, hbytes ▸ .whole k headers, by simp⟩

theorem Breaks.exists_declared {bytes : List UInt8} {stop : Stop} (h : Breaks bytes stop)
    (hstop : stop = .tooLong ∨ stop = .failed (.io .unexpectedEof)) :
    ∃ block n k after, bytes = block ++ (blankLine k ++ after) ∧ Block block (some n) ∧
      Wanting n after.length stop := by
  cases h with
  | offence h after =>
      cases h with
      | tooLong k headers long =>
          exact ⟨_, _, k, after, List.append_assoc .., headers, .tooLong long⟩
      | line headers whole fault => cases fault <;> simp at hstop
      | missingLength => simp at hstop
      | invalidBody => simp at hstop
  | insideHeader => simp at hstop
  | shortBody k headers held short => exact ⟨_, _, k, _, rfl, headers, .short held short⟩

theorem Tail.exists_declared {rest : List UInt8} {stop : Stop} (h : Tail rest stop)
    (hstop : stop = .tooLong ∨ stop = .failed (.io .unexpectedEof)) :
    ∃ n after, Declares rest n after ∧ Wanting n after.length stop := by
  cases h with
  | clean => simp at hstop
  | broken h =>
      obtain ⟨block, n, k, after, rfl, headers, hwanting⟩ := h.exists_declared hstop
      exact ⟨n, after, .whole k headers, hwanting⟩
  | unfinished before nonempty whole h =>
      obtain ⟨block, n, k, after, hbytes, headers, hwanting⟩ := h.exists_declared hstop
      rw [← List.append_assoc] at hbytes
      obtain ⟨behind, hdeclares, hless⟩ := declares_of_unfinished nonempty whole headers hbytes
      exact ⟨n, behind, hdeclares, hwanting.mono hless⟩

theorem Declares.tail {rest after : List UInt8} {n : Nat} {stop : Stop} (h : Declares rest n after)
    (hwanting : Wanting n after.length stop) : Tail rest stop := by
  have hbreaks {block after : List UInt8} (k : Nat) (headers : Block block (some n))
      (hwanting : Wanting n after.length stop) : Breaks (block ++ (blankLine k ++ after)) stop := by
    cases hwanting with
    | tooLong long =>
        rw [← List.append_assoc]
        exact .offence (.tooLong k headers long) after
    | short held short => exact .shortBody k headers held short
  cases h with
  | whole k headers => exact .broken (hbreaks k headers hwanting)
  | last k headers =>
      have hend := hbreaks (k + 1) headers hwanting
      rw [List.append_nil, blankLine] at hend
      exact .unfinished headers (by simp) (newline_not_mem_returns _) hend

theorem Tail.exists_long {rest : List UInt8} (h : Tail rest .tooLong) :
    ∃ block n after, rest = block ++ after ∧ Block block (some n) ∧ maxLength < n := by
  obtain ⟨n, after, hdeclares, ⟨long⟩⟩ := h.exists_declared (.inl rfl)
  cases hdeclares with
  | whole k headers => exact ⟨_, n, _, rfl, headers, long⟩
  | last k headers => exact ⟨_, n, _, rfl, headers, long⟩

/-! ## What makes no difference -/

/-- A spare header, among the headers of one block: it gives no length, or one that does not count. -/
inductive Spare : List UInt8 → List UInt8 → List UInt8 → Prop
  | among {before line after : List UInt8} {earlier given later : Option Nat}
      (headersBefore : Block before earlier) (whole : 10 ∉ line) (header : Header line given)
      (headersAfter : Block after later) (nonempty : before ++ after ≠ [])
      (idle : given = none ∨ later ≠ none) : Spare before (line ++ [10]) after

theorem Spare.feed {before line after : List UInt8} (h : Spare before line after) :
    start.feed (before ++ (line ++ after)) = start.feed (before ++ after) := by
  cases h with
  | @among _ _ earlier given later headersBefore whole header headersAfter nonempty idle =>
      have hlength : later.or (given.or earlier) = later.or earlier := by
        rcases idle with rfl | hlater
        · rw [Option.none_or]
        · obtain ⟨n, rfl⟩ := Option.ne_none_iff_exists'.mp hlater
          rfl
      have hseen : (!before.isEmpty || !after.isEmpty) = true := by
        cases before <;> cases after <;> simp_all
      rw [feed_append before, feed_append before, start, feed_block headersBefore]
      dsimp only
      rw [feed_append (_ ++ [10]), feed_line _ whole, endLine_header header]
      dsimp only
      rw [feed_block headersAfter, feed_block headersAfter]
      simp [hlength, hseen]

section Insertions

variable {front : List UInt8} {messages : List Json} (h : Framed front messages)

include h

theorem Framed.prefix_messages (rest : List UInt8) : messages <+: (readAll (front ++ rest)).1 := by
  rw [readAll_eq, feed_append, h.feed]
  exact List.prefix_append messages _

theorem Framed.readAll_blank (k : Nat) (rest : List UInt8) :
    readAll (front ++ (blankLine k ++ rest)) = readAll (front ++ rest) := by
  have hfeed : start.feed (front ++ blankLine k) = start.feed front := by
    rw [(Framed.blank k h).feed, h.feed]
  rw [← List.append_assoc, readAll_congr hfeed]

theorem Framed.readAll_spare {before line after : List UInt8} (hspare : Spare before line after)
    (behind : List UInt8) :
    readAll (front ++ (before ++ (line ++ (after ++ behind))))
      = readAll (front ++ (before ++ (after ++ behind))) := by
  have hfeed : start.feed (front ++ (before ++ (line ++ after)))
      = start.feed (front ++ (before ++ after)) := by
    rw [feed_append front, feed_append front, h.feed]
    dsimp only
    rw [hspare.feed]
  have hread := readAll_congr hfeed behind
  simpa only [List.append_assoc] using hread

end Insertions

/-- Reading is what the grammar says, for every stream.  It ends cleanly for blank lines and frames
alone, with carriage returns behind them, and fails otherwise, unless a header asks for a body that no
memory can hold.  No frame in front is passed over, and blank lines between frames make no
difference, nor do spare headers in a frame. -/
theorem Reader.readAll_grammar (bytes : List UInt8) :
    (∀ messages stop, readAll bytes = (messages, stop) ↔
      ∃ front rest, bytes = front ++ rest ∧ Framed front messages ∧ Tail rest stop) ∧
    (∀ messages, readAll bytes = (messages, .ended) ↔
      ∃ front k, bytes = front ++ List.replicate k 13 ∧ Framed front messages) ∧
    ((readAll bytes).2 = .ended ∨ (∃ e, (readAll bytes).2 = .failed e) ∨
      ∃ front messages block n after, bytes = front ++ (block ++ after) ∧
        Framed front messages ∧ Block block (some n) ∧ maxLength < n) ∧
    ∀ front messages rest, Framed front messages → bytes = front ++ rest →
      messages <+: (readAll bytes).1 ∧
      (∀ k, readAll (front ++ (blankLine k ++ rest)) = readAll bytes) ∧
      ∀ before line after behind, Spare before line after → rest = before ++ (after ++ behind) →
        readAll (front ++ (before ++ (line ++ (after ++ behind)))) = readAll bytes := by
  refine ⟨fun messages stop => readAll_eq_iff, fun messages => ?_, ?_, ?_⟩
  · rw [readAll_eq_iff]
    constructor
    · rintro ⟨front, rest, rfl, hframed, htail⟩
      obtain ⟨k, rfl⟩ := htail.eq_returns
      exact ⟨front, k, rfl, hframed⟩
    · rintro ⟨front, k, rfl, hframed⟩
      exact ⟨front, _, rfl, hframed, .clean k⟩
  · obtain ⟨front, rest, hbytes, hframed, htail⟩ := readAll_eq_iff.mp (Prod.eta (readAll bytes)).symm
    generalize (readAll bytes).2 = stop at htail
    cases stop with
    | ended => exact .inl rfl
    | failed e => exact .inr (.inl ⟨e, rfl⟩)
    | tooLong =>
        obtain ⟨block, n, after, rfl, hblock, hlong⟩ := htail.exists_long
        exact .inr (.inr ⟨front, _, block, n, after, hbytes, hframed, hblock, hlong⟩)
  · rintro front messages rest hframed rfl
    refine ⟨hframed.prefix_messages rest, fun k => hframed.readAll_blank k rest, ?_⟩
    rintro before line after behind hspare rfl
    exact hframed.readAll_spare hspare behind

/-- Blank lines, a header of no use, a signed length, and a carriage return at the end. -/
example :
    let bytes := Text.encode "\r\nX: 1\r\nCONTENT-length : +2\n\r\r\n{}\r".toList
    (readAll bytes).1.length = 1 ∧ (readAll bytes).2 = .ended := by
  decide +kernel

end CompletionCheck.Lsp
