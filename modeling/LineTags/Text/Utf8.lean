import LineTags.Text.Basic

/-!
# Reading UTF-8

A file holds bytes, a script is a text. Writing never fails. Reading fails at the first place where the bytes are no UTF-8, and the fault tells where that is and in which way the bytes go wrong there.
-/

namespace LineTags

/-- The ways in which bytes fail to be UTF-8. -/
inductive Utf8Fault.Kind
  | startByte
  | continuationByte
  | endOfData
  deriving DecidableEq

/-- The first fault: the offsets of its bytes, `stop` excluded, and the byte that it starts with. -/
structure Utf8Fault where
  start : Nat
  stop : Nat
  byte : UInt8
  kind : Utf8Fault.Kind
  deriving DecidableEq

namespace Utf8Fault

/-- How many continuation bytes follow a start byte, and the bounds of the first of them. -/
def sequenceOf? (b : UInt8) : Option (Nat × UInt8 × UInt8) :=
  if b < 0x80 then some (0, 0x80, 0xBF)
  else if b < 0xC2 then none
  else if b < 0xE0 then some (1, 0x80, 0xBF)
  else if b = 0xE0 then some (2, 0xA0, 0xBF)
  else if b = 0xED then some (2, 0x80, 0x9F)
  else if b < 0xF0 then some (2, 0x80, 0xBF)
  else if b = 0xF0 then some (3, 0x90, 0xBF)
  else if b < 0xF4 then some (3, 0x80, 0xBF)
  else if b = 0xF4 then some (3, 0x80, 0x8F)
  else none

/-- How many of the next bytes are in order, at most `wanted`; only the first has bounds of its own. -/
def inOrder (lowest highest : UInt8) : Nat → List UInt8 → Nat
  | 0, _ => 0
  | _, [] => 0
  | wanted + 1, b :: r =>
    if lowest ≤ b && b ≤ highest then inOrder 0x80 0xBF wanted r + 1 else 0

/-- The first fault of the bytes from offset `pos` on. -/
def find? (pos : Nat) : List UInt8 → Option Utf8Fault
  | [] => none
  | b :: r =>
    match sequenceOf? b with
    | none => some ⟨pos, pos + 1, b, .startByte⟩
    | some (wanted, lowest, highest) =>
      let found := inOrder lowest highest wanted r
      if found = wanted then find? (pos + 1 + found) (r.drop found)
      else some ⟨pos, pos + 1 + found, b, if found = r.length then .endOfData else .continuationByte⟩
termination_by bytes => bytes.length
decreasing_by
  simp only [List.length_cons, List.length_drop]
  omega

def Kind.reason : Kind → Text
  | startByte => "invalid start byte".toList
  | continuationByte => "invalid continuation byte".toList
  | endOfData => "unexpected end of data".toList

/-- A lone byte is named by its value, several by their offsets. -/
def message (f : Utf8Fault) : Text :=
  let place :=
    if f.stop = f.start + 1 then
      "byte 0x".toList ++ [Nat.digitChar (f.byte.toNat / 16), Nat.digitChar (f.byte.toNat % 16)]
        ++ " in position ".toList ++ Text.ofInt f.start
    else "bytes in position ".toList ++ Text.ofInt f.start ++ ['-'] ++ Text.ofInt (f.stop - 1 : Nat)
  "'utf-8' codec can't decode ".toList ++ place ++ ": ".toList ++ f.kind.reason

end Utf8Fault

namespace Text

def toUtf8 (t : Text) : List UInt8 := (String.ofList t).toByteArray.data.toList

def ofUtf8 (bytes : List UInt8) : Except Utf8Fault Text :=
  match ByteArray.utf8Decode? ⟨bytes.toArray⟩ with
  | some chars => .ok chars.toList
  | none => .error ((Utf8Fault.find? 0 bytes).getD ⟨0, 1, 0, .startByte⟩)

theorem ofUtf8_toUtf8 (t : Text) : ofUtf8 (toUtf8 t) = .ok t := by
  have h : (⟨(toUtf8 t).toArray⟩ : ByteArray) = t.utf8Encode := by simp [toUtf8]
  simp [ofUtf8, h]

end Text

end LineTags
