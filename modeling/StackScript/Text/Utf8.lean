/-!
# Text as bytes

Characters are written in one to four bytes. Reading refuses the first byte that cannot start or
continue a character and names the stretch of bytes it gives up on, with one of three causes.
-/

namespace StackScript.Text

/-- Why bytes are no text. -/
inductive Utf8Cause where
  | invalidStart
  | invalidContinuation
  | unexpectedEnd
  deriving DecidableEq, Repr

/-- The bytes that are no text: the positions of the first and last of them and the value of the
first. -/
structure Utf8Error where
  first : Nat
  last : Nat
  byte : UInt8
  cause : Utf8Cause
  deriving DecidableEq, Repr

def encodeChar (c : Char) : List UInt8 :=
  let n := c.toNat
  let tail (unit : Nat) : UInt8 := UInt8.ofNat (0x80 + n / unit % 0x40)
  if n < 0x80 then [UInt8.ofNat n]
  else if n < 0x800 then [UInt8.ofNat (0xC0 + n / 0x40), tail 1]
  else if n < 0x10000 then [UInt8.ofNat (0xE0 + n / 0x1000), tail 0x40, tail 1]
  else [UInt8.ofNat (0xF0 + n / 0x40000), tail 0x1000, tail 0x40, tail 1]

def encodeUtf8 (s : String) : List UInt8 :=
  s.toList.flatMap encodeChar

def isTail (b : UInt8) : Bool :=
  0x80 ≤ b && b < 0xC0

/-- A byte that may follow the first byte of a character of three or four bytes. -/
def mayFollow (a b : UInt8) : Bool :=
  isTail b && (a != 0xE0 || 0xA0 ≤ b) && (a != 0xED || b < 0xA0)
    && (a != 0xF0 || 0x90 ≤ b) && (a != 0xF4 || b < 0x90)

def tailBits (b : UInt8) : Nat := b.toNat % 0x40

/-- Reads characters from bytes; `position` is the number of bytes read before and `read` the
characters they gave, latest first. -/
def decodeFrom (position : Nat) (read : List Char) : List UInt8 → Except Utf8Error (List Char)
  | [] => .ok read.reverse
  | a :: rest =>
    let refuse (count : Nat) (cause : Utf8Cause) : Except Utf8Error (List Char) :=
      .error ⟨position, position + count - 1, a, cause⟩
    if a < 0x80 then
      decodeFrom (position + 1) (Char.ofNat a.toNat :: read) rest
    else if a < 0xC2 || 0xF5 ≤ a then refuse 1 .invalidStart
    else match rest with
      | [] => refuse 1 .unexpectedEnd
      | b :: rest =>
        if a < 0xE0 then
          if isTail b then
            let point := a.toNat % 0x20 * 0x40 + tailBits b
            decodeFrom (position + 2) (Char.ofNat point :: read) rest
          else refuse 1 .invalidContinuation
        else if !mayFollow a b then refuse 1 .invalidContinuation
        else match rest with
          | [] => refuse 2 .unexpectedEnd
          | c :: rest =>
            if !isTail c then refuse 2 .invalidContinuation
            else if a < 0xF0 then
              let point := a.toNat % 0x10 * 0x1000 + tailBits b * 0x40 + tailBits c
              decodeFrom (position + 3) (Char.ofNat point :: read) rest
            else match rest with
              | [] => refuse 3 .unexpectedEnd
              | d :: rest =>
                if !isTail d then refuse 3 .invalidContinuation
                else
                  let point := a.toNat % 0x08 * 0x40000 + tailBits b * 0x1000
                    + tailBits c * 0x40 + tailBits d
                  decodeFrom (position + 4) (Char.ofNat point :: read) rest

def decodeUtf8 (bytes : List UInt8) : Except Utf8Error String :=
  (decodeFrom 0 [] bytes).map String.ofList

def Utf8Error.message (e : Utf8Error) : String :=
  let stretch :=
    if e.first = e.last then
      "byte 0x" ++ String.ofList
        (let digits := Nat.toDigits 16 e.byte.toNat
         List.replicate (2 - digits.length) '0' ++ digits)
        ++ s!" in position {e.first}"
    else s!"bytes in position {e.first}-{e.last}"
  let cause := match e.cause with
    | .invalidStart => "invalid start byte"
    | .invalidContinuation => "invalid continuation byte"
    | .unexpectedEnd => "unexpected end of data"
  s!"'utf-8' codec can't decode {stretch}: {cause}"

/-- Line ends of two characters and lone carriage returns become plain line ends. -/
def plainLineEnds : List Char → List Char
  | '\r' :: '\n' :: rest => '\n' :: plainLineEnds rest
  | '\r' :: rest => '\n' :: plainLineEnds rest
  | c :: rest => c :: plainLineEnds rest
  | [] => []

end StackScript.Text
