import CompletionCheck.Lsp.Reader

/-!
# Feeding a reader

A reader takes bytes one at a time and gives a message now and then.  Fed with a stream in pieces, it
does what it does with the whole (`feed_append`), so a stream can be read piece by piece: the bytes of
a line collect until its line feed and are then looked at once (`feed_line`), the bytes of a body until
there are as many as announced (`feed_body`).  After it has stopped nothing matters (`feed_stopped`).
-/

namespace CompletionCheck.Lsp

namespace Reader

/-! ## Bytes one after the other -/

theorem feedOnto_eq (bytes : List UInt8) :
    ∀ (r : Reader) (acc : List Json),
      feedOnto acc r bytes = ((r.feed bytes).1, (r.feed bytes).2.reverse ++ acc) := by
  induction bytes with
  | nil =>
      intro r acc
      rfl
  | cons b bytes ih =>
      intro r acc
      rw [feed, feedOnto, feedOnto]
      rcases hstep : r.step b with ⟨r', message⟩
      cases message with
      | none =>
          dsimp only
          rw [ih r' acc, ih r' []]
          simp
      | some message =>
          dsimp only
          rw [ih r' (message :: acc), ih r' [message]]
          simp

theorem feed_nil (r : Reader) : r.feed [] = (r, []) := rfl

theorem feed_cons (r : Reader) (b : UInt8) (bytes : List UInt8) :
    r.feed (b :: bytes)
      = (((r.step b).1.feed bytes).1, (r.step b).2.toList ++ ((r.step b).1.feed bytes).2) := by
  rw [feed, feedOnto]
  rcases hstep : r.step b with ⟨r', message⟩
  cases message <;> simp [feedOnto_eq]

theorem feed_append (xs ys : List UInt8) :
    ∀ r : Reader, r.feed (xs ++ ys)
      = (((r.feed xs).1.feed ys).1, (r.feed xs).2 ++ ((r.feed xs).1.feed ys).2) := by
  induction xs with
  | nil =>
      intro r
      rw [feed_nil]
      rfl
  | cons b xs ih =>
      intro r
      rw [List.cons_append, feed_cons, feed_cons, ih]
      simp

theorem feed_concat (bytes : List UInt8) (b : UInt8) (r : Reader) :
    r.feed (bytes ++ [b])
      = (((r.feed bytes).1.step b).1, (r.feed bytes).2 ++ ((r.feed bytes).1.step b).2.toList) := by
  rw [feed_append, feed_cons, feed_nil, List.append_nil]

theorem feed_stopped (why : Stop) (bytes : List UInt8) :
    (stopped why).feed bytes = (.stopped why, []) := by
  induction bytes with
  | nil => rfl
  | cons b bytes ih =>
      rw [feed_cons, step, ih]
      rfl

theorem readAll_eq (bytes : List UInt8) :
    readAll bytes = ((start.feed bytes).2, (start.feed bytes).1.finish) := rfl

/-- Streams that lead to one place with the same messages go on alike. -/
theorem readAll_congr {xs ys : List UInt8} (h : start.feed xs = start.feed ys)
    (rest : List UInt8) : readAll (xs ++ rest) = readAll (ys ++ rest) := by
  rw [readAll_eq, readAll_eq, feed_append, feed_append, h]

/-! ## Lines -/

theorem feed_line_open (line : List UInt8) (h : 10 ∉ line) (seen : Bool) (length : Option Nat) :
    ∀ before : List UInt8,
      (header before seen length).feed line
        = (header (line.reverse ++ before) seen length, []) := by
  induction line with
  | nil =>
      intro before
      rfl
  | cons b line ih =>
      intro before
      have hb : b ≠ 10 := by
        rintro rfl
        exact h List.mem_cons_self
      have hstep : (header before seen length).step b
          = (header (b :: before) seen length, none) := by
        rw [step, if_neg hb]
      rw [feed_cons, hstep]
      dsimp only
      rw [ih (fun hmem => h (List.mem_cons_of_mem _ hmem))]
      simp

theorem feed_line (line : List UInt8) (h : 10 ∉ line) (seen : Bool) (length : Option Nat) :
    (header [] seen length).feed (line ++ [10])
      = ((endLine line seen length).1, (endLine line seen length).2.toList) := by
  rw [feed_concat, feed_line_open line h]
  simp [step]

/-! ## Bodies -/

theorem feed_body (bytes : List UInt8) :
    ∀ (left : Nat) (collected : List UInt8), bytes.length = left + 1 →
      (body left collected).feed bytes
        = ((endBody (collected.reverse ++ bytes)).1,
            (endBody (collected.reverse ++ bytes)).2.toList) := by
  induction bytes with
  | nil =>
      intro left collected h
      simp at h
  | cons b bytes ih =>
      intro left collected h
      rw [feed_cons]
      cases left with
      | zero =>
          obtain rfl : bytes = [] := List.eq_nil_of_length_eq_zero (by simpa using h)
          simp [step, feed_nil]
      | succ left =>
          rw [step, ih left (b :: collected) (by simpa using h)]
          simp

theorem feed_body_open (bytes : List UInt8) :
    ∀ (left : Nat) (collected : List UInt8), bytes.length ≤ left →
      (body left collected).feed bytes
        = (body (left - bytes.length) (bytes.reverse ++ collected), []) := by
  induction bytes with
  | nil =>
      intro left collected h
      rfl
  | cons b bytes ih =>
      intro left collected h
      cases left with
      | zero => simp at h
      | succ left =>
          rw [feed_cons, step]
          dsimp only
          rw [ih left (b :: collected) (by simpa using h)]
          simp

end Reader

end CompletionCheck.Lsp
