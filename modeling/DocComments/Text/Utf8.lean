import DocComments.Text.Quoted

/-!
# Reading UTF-8

Bytes are read as UTF-8 text, or refused with the bytes at fault: one that can start no character,
the bytes of a character that another byte breaks off, or those that the end of the data does.
-/

namespace DocComments.Text.Utf8

/-- What is wrong with the bytes. -/
inductive Flaw where
  | badStart
  | badContinuation
  | endOfData
deriving DecidableEq, Repr

/-- The bytes at fault, from the first to the one after the last. -/
structure Fault where
  flaw : Flaw
  start : Nat
  stop : Nat
  first : UInt8
deriving DecidableEq, Repr

/-- What is wrong, and where. -/
def Fault.message (fault : Fault) : String :=
  let which :=
    if fault.stop = fault.start + 1 then
      "byte 0x" ++ String.ofList (hexDigits 2 fault.first.toNat) ++ " in position " ++
        toString fault.start
    else
      "bytes in position " ++ toString fault.start ++ "-" ++ toString (fault.stop - 1)
  let why := match fault.flaw with
    | .badStart => "invalid start byte"
    | .badContinuation => "invalid continuation byte"
    | .endOfData => "unexpected end of data"
  "'utf-8' codec can't decode " ++ which ++ ": " ++ why

/-- The number of bytes that follow a first byte, with the bits that it holds. -/
def leading? (byte : Nat) : Option (Nat × Nat) :=
  if byte < 0x80 then some (0, byte)
  else if 0xc2 ≤ byte ∧ byte < 0xe0 then some (1, byte - 0xc0)
  else if 0xe0 ≤ byte ∧ byte < 0xf0 then some (2, byte - 0xe0)
  else if 0xf0 ≤ byte ∧ byte < 0xf5 then some (3, byte - 0xf0)
  else none

/-- Can the byte follow `first` as the second byte of a character? Some first bytes leave out the
long forms of low characters, the surrogates, and what is beyond the last character. -/
def isSecond (first second : Nat) : Bool :=
  0x80 ≤ second && second < 0xc0 &&
    !(first == 0xe0 && second < 0xa0) && !(first == 0xed && 0xa0 ≤ second) &&
    !(first == 0xf0 && second < 0x90) && !(first == 0xf4 && 0x90 ≤ second)

/-- Reads the bytes of a character after the first: how many are still to come, how many were read,
the bits so far. Gives the character, or the flaw with the number of bytes read. -/
def continuation (first : Nat) : (left read bits : Nat) → List UInt8 → Except (Flaw × Nat) Char
  | 0, _, bits, _ => .ok (Char.ofNat bits)
  | _ + 1, read, _, [] => .error (.endOfData, read)
  | left + 1, read, bits, byte :: rest =>
    let fits := if read = 1 then isSecond first byte.toNat
      else 0x80 ≤ byte.toNat && byte.toNat < 0xc0
    if fits then continuation first left (read + 1) (bits * 64 + (byte.toNat - 0x80)) rest
    else .error (.badContinuation, read)

/-- Reads the bytes from `position` on, after `skip` bytes that belong to the character before. -/
def decodeFrom : (skip position : Nat) → List UInt8 → Except Fault (List Char)
  | _, _, [] => .ok []
  | skip + 1, position, _ :: rest => decodeFrom skip (position + 1) rest
  | 0, position, byte :: rest =>
    match leading? byte.toNat with
    | none => .error ⟨.badStart, position, position + 1, byte⟩
    | some (count, bits) =>
      match continuation byte.toNat count 1 bits rest with
      | .error (flaw, read) => .error ⟨flaw, position, position + read, byte⟩
      | .ok c => (decodeFrom count (position + 1) rest).map (c :: ·)

/-- The text that the bytes write. -/
def decode (bytes : List UInt8) : Except Fault String :=
  (decodeFrom 0 0 bytes).map String.ofList

end DocComments.Text.Utf8
