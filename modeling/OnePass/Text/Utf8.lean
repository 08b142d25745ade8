import OnePass.Text.Quoted

/-!
UTF-8 text. `decode` accepts exactly the encodings of texts; bytes that are none are refused with
the place where they go wrong.
-/

namespace OnePass.Text.Utf8

/-- What is wrong with a byte sequence. -/
inductive Flaw where
  | start
  | continuation
  | truncated
  deriving DecidableEq

def Flaw.message : Flaw → String
  | .start => "invalid start byte"
  | .continuation => "invalid continuation byte"
  | .truncated => "unexpected end of data"

/-- The first ill-formed part: the longest beginning of a character that is there, or a byte that
begins none. -/
structure Fault where
  flaw : Flaw
  position : Nat
  bytes : List UInt8
  deriving DecidableEq

/-- The ranges of the bytes that follow a first byte. -/
def following? (b : UInt8) : Option (List (Nat × Nat)) :=
  let n := b.toNat
  let any := (0x80, 0xbf)
  if n < 0x80 then some []
  else if n < 0xc2 then none
  else if n < 0xe0 then some [any]
  else if n = 0xe0 then some [(0xa0, 0xbf), any]
  else if n = 0xed then some [(0x80, 0x9f), any]
  else if n < 0xf0 then some [any, any]
  else if n = 0xf0 then some [(0x90, 0xbf), any, any]
  else if n < 0xf4 then some [any, any, any]
  else if n = 0xf4 then some [(0x80, 0x8f), any, any]
  else none

/-- Find the first ill-formed part. `seen` are the bytes of the character being read, which began
at `start`, and `awaited` the ranges of those still to come. -/
def locate (start : Nat) (seen : List UInt8) : List (Nat × Nat) → List UInt8 → Fault
  | _, [] => ⟨.truncated, start, seen⟩
  | [], b :: bytes =>
    let start := start + seen.length
    match following? b with
    | some awaited => locate start [b] awaited bytes
    | none => ⟨.start, start, [b]⟩
  | (low, high) :: awaited, b :: bytes =>
    if low ≤ b.toNat ∧ b.toNat ≤ high then locate start (seen ++ [b]) awaited bytes
    else ⟨.continuation, start, seen⟩

def decode (bytes : ByteArray) : Except Fault String :=
  match String.fromUTF8? bytes with
  | some s => .ok s
  | none => .error (locate 0 [] [] bytes.toList)

def Fault.message (fault : Fault) : String :=
  let place :=
    match fault.bytes with
    | [b] =>
      "byte 0x" ++ String.ofList (hex 2 b.toNat) ++ " in position " ++ toString fault.position
    | bytes =>
      "bytes in position " ++ toString fault.position ++ "-" ++
        toString (fault.position + bytes.length - 1)
  "'utf-8' codec can't decode " ++ place ++ ": " ++ fault.flaw.message

theorem decode_toUTF8 (s : String) : decode s.toUTF8 = .ok s := by
  have valid : String.fromUTF8? s.toUTF8 = some s := by
    unfold String.fromUTF8?
    split
    next => rfl
    next invalid => exact absurd s.isValidUTF8 invalid
  unfold decode
  rw [valid]

theorem toUTF8_of_decode {bytes : ByteArray} {s : String} (h : decode bytes = .ok s) :
    s.toUTF8 = bytes := by
  unfold decode String.fromUTF8? at h
  split at h
  next read =>
    split at read
    · cases h
      cases read
      rfl
    · cases read
  next => cases h

end OnePass.Text.Utf8
