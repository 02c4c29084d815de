import Brewery.Text.Basic

/-!
UTF-8. Bytes are read as a list of characters and of defects: a defect is a longest run of
bytes that begins a character and cannot be finished, or one byte that begins none.
-/

namespace Brewery.Text.Utf8

def encodeChar (c : Char) : List UInt8 := String.utf8EncodeChar c

def encode (text : Text) : List UInt8 := text.flatMap encodeChar

def size (text : Text) : Nat := text.foldr (fun c total => c.utf8Size + total) 0

def isContinuation (byte : UInt8) : Bool := 0x80 ≤ byte && byte < 0xC0

/-- How many bytes follow a first byte, which second bytes it admits, and its own bits. -/
def lead? (byte : UInt8) : Option (Nat × UInt8 × UInt8 × Nat) :=
  if byte < 0x80 then some (0, 0, 0, byte.toNat)
  else if byte < 0xC2 then none
  else if byte < 0xE0 then some (1, 0x80, 0xBF, byte.toNat - 0xC0)
  else if byte = 0xE0 then some (2, 0xA0, 0xBF, 0)
  else if byte = 0xED then some (2, 0x80, 0x9F, 0xD)
  else if byte < 0xF0 then some (2, 0x80, 0xBF, byte.toNat - 0xE0)
  else if byte = 0xF0 then some (3, 0x90, 0xBF, 0)
  else if byte < 0xF4 then some (3, 0x80, 0xBF, byte.toNat - 0xF0)
  else if byte = 0xF4 then some (3, 0x80, 0x8F, 4)
  else none

/-- Reads the bytes after the second. Gives the character, if it is whole, and the rest. -/
def finish : (missing code : Nat) → List UInt8 → Option Char × List UInt8
  | 0, code, rest => (some (Char.ofNat code), rest)
  | _ + 1, _, [] => (none, [])
  | missing + 1, code, byte :: rest =>
      if isContinuation byte then finish missing (code * 64 + (byte.toNat - 0x80)) rest
      else (none, byte :: rest)

/-- One character or one defect, and what follows it. -/
def next (byte : UInt8) (rest : List UInt8) : Option Char × List UInt8 :=
  match lead? byte, rest with
  | none, rest => (none, rest)
  | some (0, _, _, code), rest => (some (Char.ofNat code), rest)
  | some (_ + 1, _, _, _), [] => (none, [])
  | some (following + 1, low, high, code), second :: rest =>
      if low ≤ second && second ≤ high then
        finish following (code * 64 + (second.toNat - 0x80)) rest
      else (none, second :: rest)

theorem finish_length (missing code : Nat) (bytes : List UInt8) :
    (finish missing code bytes).2.length ≤ bytes.length := by
  induction missing generalizing code bytes with
  | zero => simp [finish]
  | succ missing ih =>
      cases bytes with
      | nil => simp [finish]
      | cons byte rest =>
          simp only [finish]
          split
          · have := ih (code * 64 + (byte.toNat - 0x80)) rest
            simp only [List.length_cons]; omega
          · simp

theorem next_length (byte : UInt8) (rest : List UInt8) :
    (next byte rest).2.length ≤ rest.length := by
  unfold next
  split
  · simp
  · simp
  · simp
  · split
    · refine Nat.le_trans (finish_length _ _ _) ?_
      simp
    · simp

def scan : List UInt8 → List (Option Char)
  | [] => []
  | byte :: rest => (next byte rest).1 :: scan (next byte rest).2
termination_by bytes => bytes.length
decreasing_by
  have := next_length byte rest
  simp only [List.length_cons]; omega

/-- The text of bytes without a defect. -/
def decode? (bytes : List UInt8) : Option Text := (scan bytes).mapM id

/-- The text of any bytes, each defect shown as U+FFFD. -/
def decodeLossy (bytes : List UInt8) : Text :=
  (scan bytes).map fun read => read.getD (Char.ofNat 0xFFFD)

end Brewery.Text.Utf8
