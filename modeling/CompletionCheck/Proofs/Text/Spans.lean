import CompletionCheck.Text.Utf8

/-!
# Places in a text

A place in a text is a number of bytes, and not every number is one: it has to lie between two
characters.  `Covers text start stop cs` says that the bytes from `start` to `stop` are those of the
characters `cs`, so that both ends are places, and lie in the text.  Nothing in it is added up by
the program, so spans can be compared with it.
-/

namespace CompletionCheck.Text

/-- Byte `n` lies between two characters of a text, or at an end of it. -/
def IsBoundary (text : List Char) (n : Nat) : Prop :=
  ∃ before after, text = before ++ after ∧ byteLength before = n

/-- The bytes of a text from `start` to `stop` are those of `cs`. -/
def Covers (text : List Char) (start stop : Nat) (cs : List Char) : Prop :=
  ∃ before after, text = before ++ (cs ++ after) ∧ byteLength before = start ∧
    start + byteLength cs = stop

variable {text cs : List Char} {start stop : Nat}

theorem covers_of_append (before cs after : List Char) :
    Covers (before ++ (cs ++ after)) (byteLength before) (byteLength before + byteLength cs) cs :=
  ⟨before, after, rfl, rfl, rfl⟩

theorem Covers.isBoundary_start (h : Covers text start stop cs) : IsBoundary text start := by
  obtain ⟨before, after, htext, hstart, -⟩ := h
  exact ⟨before, cs ++ after, htext, hstart⟩

theorem Covers.isBoundary_stop (h : Covers text start stop cs) : IsBoundary text stop := by
  obtain ⟨before, after, rfl, rfl, rfl⟩ := h
  exact ⟨before ++ cs, after, (List.append_assoc before cs after).symm, byteLength_append ..⟩

theorem Covers.start_le (h : Covers text start stop cs) : start ≤ stop := by
  obtain ⟨-, -, -, -, rfl⟩ := h
  exact Nat.le_add_right ..

theorem Covers.stop_le (h : Covers text start stop cs) : stop ≤ byteLength text := by
  obtain ⟨before, after, rfl, rfl, rfl⟩ := h
  rw [byteLength_append, byteLength_append]
  omega

end CompletionCheck.Text
