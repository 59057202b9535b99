/-!
# Texts as bytes

Every offset, length and span of this library counts UTF-8 bytes, while texts are lists of
characters.  This module is the bridge: the number of bytes of a text, its bytes, and the reading
of bytes as a text.  Reading is strict: it gives a text exactly when the bytes are that text's
bytes (`decode?_eq_some_iff`), so bytes that are no text are never mended.
-/

namespace CompletionCheck.Text

/-- The number of bytes of a text in UTF-8. -/
def byteLength (cs : List Char) : Nat :=
  cs.foldr (fun c n => c.utf8Size + n) 0

@[simp] theorem byteLength_nil : byteLength [] = 0 := rfl

@[simp] theorem byteLength_cons (c : Char) (cs : List Char) :
    byteLength (c :: cs) = c.utf8Size + byteLength cs := by
  simp [byteLength]

@[simp] theorem byteLength_append (cs ds : List Char) :
    byteLength (cs ++ ds) = byteLength cs + byteLength ds := by
  induction cs with
  | nil => simp
  | cons c cs ih => simp [ih, Nat.add_assoc]

def encode (cs : List Char) : List UInt8 :=
  cs.flatMap String.utf8EncodeChar

@[simp] theorem encode_nil : encode [] = [] := rfl

@[simp] theorem encode_cons (c : Char) (cs : List Char) :
    encode (c :: cs) = String.utf8EncodeChar c ++ encode cs := by
  simp [encode]

@[simp] theorem encode_append (cs ds : List Char) : encode (cs ++ ds) = encode cs ++ encode ds := by
  simp [encode]

theorem length_encode (cs : List Char) : (encode cs).length = byteLength cs := by
  induction cs with
  | nil => rfl
  | cons c cs ih =>
    rw [encode_cons, List.length_append, String.length_utf8EncodeChar, ih, byteLength_cons]

def decode? (bytes : List UInt8) : Option (List Char) :=
  (String.fromUTF8? bytes.toByteArray).map String.toList

theorem fromUTF8_eq_ofList {bytes : ByteArray} {cs : List Char} (valid : bytes.IsValidUTF8)
    (h : bytes = cs.utf8Encode) : String.fromUTF8 bytes valid = String.ofList cs :=
  String.toByteArray_inj.1 (h.trans String.toByteArray_ofList.symm)

/-- Reading accepts exactly what writing gives. -/
theorem decode?_eq_some_iff {bytes : List UInt8} {cs : List Char} :
    decode? bytes = some cs ↔ bytes = encode cs := by
  constructor
  · intro h
    obtain ⟨s, hs, rfl⟩ := Option.map_eq_some_iff.1 h
    unfold String.fromUTF8? at hs
    split at hs
    · rename_i valid
      cases hs
      obtain ⟨m, hm⟩ := valid
      rw [fromUTF8_eq_ofList ⟨m, hm⟩ hm, String.toList_ofList]
      exact List.toByteArray_inj.1 hm
    · cases hs
  · rintro rfl
    have valid : (encode cs).toByteArray.IsValidUTF8 := ⟨cs, rfl⟩
    simp [decode?, String.fromUTF8?, valid, fromUTF8_eq_ofList valid rfl]

@[simp] theorem decode?_encode (cs : List Char) : decode? (encode cs) = some cs :=
  decode?_eq_some_iff.2 rfl

/-- The character that some bytes begin with, if they begin with one. -/
def leadingChar? (bytes : List UInt8) : Option Char :=
  (bytes.take 4).toByteArray.utf8DecodeChar? 0

/-- A stretch of bytes: a character, or a single byte that belongs to none. -/
inductive Piece
  | char (c : Char)
  | byte (b : UInt8)
deriving DecidableEq, Repr

/-- Cuts bytes into characters and the bytes between them that belong to no character. -/
def pieces : List UInt8 → List Piece
  | [] => []
  | b :: rest =>
    match leadingChar? (b :: rest) with
    | some c => .char c :: pieces (rest.drop (c.utf8Size - 1))
    | none => .byte b :: pieces rest
termination_by bytes => bytes.length

end CompletionCheck.Text
