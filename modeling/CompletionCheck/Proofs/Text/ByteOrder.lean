import CompletionCheck.Text.Utf8

/-!
# The order of texts is the order of their bytes

Texts are compared by code points here, and elsewhere by the bytes that spell them.  The two orders
are one (`encode_lt_encode_iff`): of two different characters the smaller one has the smaller byte
at the first place where their bytes differ, and there is such a place in both, so that what follows
the characters has no say.
-/

namespace CompletionCheck.Text

/-- Two strings of bytes differ at a place that both have, and the first is smaller there. -/
def PartsBelow : List UInt8 → List UInt8 → Prop
  | a :: x, b :: y => a < b ∨ a = b ∧ PartsBelow x y
  | _, _ => False

theorem PartsBelow.append {x : List UInt8} : ∀ {y : List UInt8}, PartsBelow x y →
    ∀ u v : List UInt8, x ++ u < y ++ v := by
  induction x with
  | nil => intro y h; exact absurd h (by simp [PartsBelow])
  | cons a x ih =>
      intro y h u v
      cases y with
      | nil => exact absurd h (by simp [PartsBelow])
      | cons b y =>
          refine List.cons_lt_cons_iff.mpr ?_
          exact h.imp id fun ⟨hab, hxy⟩ => ⟨hab, ih hxy u v⟩

theorem partsBelow_utf8EncodeChar {c d : Char} (h : c < d) :
    PartsBelow (String.utf8EncodeChar c) (String.utf8EncodeChar d) := by
  have hlt : c.val.toNat < d.val.toNat := h
  have hmax : d.val.toNat < 0x110000 := by
    rcases d.valid with h | h <;> omega
  -- every digit is got from the one before it
  have two (n : Nat) : n / 4096 = n / 64 / 64 := by omega
  have three (n : Nat) : n / 262144 = n / 64 / 64 / 64 := by omega
  unfold String.utf8EncodeChar
  simp only [two, three]
  repeat' split
  all_goals simp only [PartsBelow, UInt8.lt_iff_toNat_lt, ← UInt8.toNat_inj, UInt8.toNat_ofNat',
    and_false, or_false]
  all_goals omega

theorem append_lt_append_left_iff (p : List UInt8) {x y : List UInt8} :
    p ++ x < p ++ y ↔ x < y := by
  induction p with
  | nil => exact Iff.rfl
  | cons b p ih => rw [List.cons_append, List.cons_append, List.cons_lt_cons_self, ih]

/-- Texts stand in the order of their bytes. -/
theorem encode_lt_encode_iff {cs : List Char} : ∀ {ds : List Char},
    encode cs < encode ds ↔ cs < ds := by
  have parted {c d : Char} (h : c < d) (x y : List Char) : encode (c :: x) < encode (d :: y) := by
    rw [encode_cons, encode_cons]
    exact (partsBelow_utf8EncodeChar h).append _ _
  induction cs with
  | nil =>
      intro ds
      cases ds with
      | nil => simp
      | cons d ds =>
          have nonempty : encode (d :: ds) ≠ [] := by
            simp [String.utf8EncodeChar_ne_nil]
          obtain ⟨b, rest, hb⟩ := List.exists_cons_of_ne_nil nonempty
          rw [hb]
          simp
  | cons c cs ih =>
      intro ds
      cases ds with
      | nil => simp
      | cons d ds =>
          rw [List.cons_lt_cons_iff]
          rcases Std.lt_trichotomy c d with h | rfl | h
          · exact iff_of_true (parted h cs ds) (Or.inl h)
          · rw [encode_cons, encode_cons, append_lt_append_left_iff, ih]
            simp
          · refine iff_of_false (List.lt_asymm (parted h ds cs)) ?_
            rintro (hlt | ⟨rfl, -⟩)
            · exact Char.lt_asymm h hlt
            · exact Char.lt_irrefl c h

end CompletionCheck.Text
