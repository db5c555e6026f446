/-!
# UTF-8

Encoding of text, and decoding of bytes that may not be text. A maximal part of a sequence that
could still have become a character is one fault.
-/

namespace ScriptModules.Text

/-- The bytes of a text. -/
def encodeUtf8 (s : List Char) : List UInt8 := s.flatMap String.utf8EncodeChar

/-- What goes wrong at a byte. -/
inductive Utf8Fault where
  /-- No character starts with the byte. -/
  | badStart
  /-- A byte is not the continuation that it should be. -/
  | badContinuation
  /-- The bytes end inside a character. -/
  | truncated
  deriving DecidableEq, Repr

/-- The fault in words. -/
def Utf8Fault.words : Utf8Fault → String
  | badStart => "invalid start byte"
  | badContinuation => "invalid continuation byte"
  | truncated => "unexpected end of data"

/-- The next character with the number of its bytes, or a fault with the number of bytes it
takes. -/
inductive Utf8Step where
  | char (c : Char) (size : Nat)
  | fault (f : Utf8Fault) (size : Nat)

/-- A continuation byte. -/
def isContinuation (b : UInt8) : Bool := 0x80 ≤ b && b ≤ 0xbf

/-- The payload of a continuation byte. -/
def payload (b : UInt8) : Nat := b.toNat % 64

/-- The range of the second byte after a first byte of a longer sequence: overlong forms, surrogates
and code points past the last are excluded. -/
def secondRange (b : UInt8) : Nat × Nat :=
  if b == 0xe0 then (0xa0, 0xbf)
  else if b == 0xed then (0x80, 0x9f)
  else if b == 0xf0 then (0x90, 0xbf)
  else if b == 0xf4 then (0x80, 0x8f)
  else (0x80, 0xbf)

/-- The byte may stand second. -/
def isSecond (first second : UInt8) : Bool :=
  let r := secondRange first
  r.1 ≤ second.toNat && second.toNat ≤ r.2

/-- Reads one character from bytes that start with `b`. -/
def stepUtf8 (b : UInt8) (rest : List UInt8) : Utf8Step :=
  if b < 0x80 then .char (Char.ofNat b.toNat) 1
  else if b < 0xc2 || 0xf4 < b then .fault .badStart 1
  else
    match rest with
    | [] => .fault .truncated 1
    | b₂ :: rest =>
      if !isSecond b b₂ then .fault .badContinuation 1
      else if b < 0xe0 then .char (Char.ofNat ((b.toNat - 0xc0) * 64 + payload b₂)) 2
      else match rest with
        | [] => .fault .truncated 2
        | b₃ :: rest =>
          if !isContinuation b₃ then .fault .badContinuation 2
          else if b < 0xf0 then
            .char (Char.ofNat (((b.toNat - 0xe0) * 64 + payload b₂) * 64 + payload b₃)) 3
          else match rest with
            | [] => .fault .truncated 3
            | b₄ :: _ =>
              if !isContinuation b₄ then .fault .badContinuation 3
              else
                .char (Char.ofNat
                  ((((b.toNat - 0xf0) * 64 + payload b₂) * 64 + payload b₃) * 64 + payload b₄)) 4

/-- Decodes bytes with a replacement character for each fault; the first argument bounds the steps
by the number of bytes. -/
def decodeLossyFrom : Nat → List UInt8 → List Char
  | 0, _ => []
  | _, [] => []
  | n + 1, b :: rest =>
    match stepUtf8 b rest with
    | .char c size => c :: decodeLossyFrom n ((b :: rest).drop size)
    | .fault _ size => '\ufffd' :: decodeLossyFrom n ((b :: rest).drop size)

/-- Decodes bytes with a replacement character for each fault. -/
def decodeLossy (bytes : List UInt8) : List Char := decodeLossyFrom bytes.length bytes

/-- Bytes that are not text: the fault, the position where it starts, and the bytes it takes. -/
structure Undecodable where
  fault : Utf8Fault
  position : Nat
  bytes : List UInt8
  deriving DecidableEq, Repr

/-- Bytes decoded up to a fault, if there is one. -/
structure PartlyDecoded where
  text : List Char
  stop : Option Undecodable

/-- Decodes bytes from a position up to the first fault. -/
def decodePartFrom : Nat → Nat → List UInt8 → PartlyDecoded
  | 0, _, _ => ⟨[], none⟩
  | _, _, [] => ⟨[], none⟩
  | n + 1, position, b :: rest =>
    match stepUtf8 b rest with
    | .char c size =>
      let part := decodePartFrom n (position + size) ((b :: rest).drop size)
      { part with text := c :: part.text }
    | .fault f size => ⟨[], some ⟨f, position, (b :: rest).take size⟩⟩

/-- Decodes bytes up to the first fault. -/
def decodePart (bytes : List UInt8) : PartlyDecoded := decodePartFrom bytes.length 0 bytes

/-- Decodes bytes that come in blocks. A character may be spread over two blocks, and its bytes are
then `carried` to the second; positions count from the first byte carried or, without one, from the
start of the block. The first argument bounds the number of blocks. -/
def decodeBlocks (size : Nat) : Nat → List UInt8 → List UInt8 → Except Undecodable (List Char)
  | 0, _, _ => return []
  | n + 1, carried, bytes =>
    if bytes.isEmpty then
      if carried.isEmpty then return [] else throw ⟨.truncated, 0, carried⟩
    else
      let part := decodePart (carried ++ bytes.take size)
      match part.stop with
      | none => do return part.text ++ (← decodeBlocks size n [] (bytes.drop size))
      | some u =>
        if u.fault == .truncated then do
          return part.text ++ (← decodeBlocks size n u.bytes (bytes.drop size))
        else throw u

/-- The size of the blocks in which files are read. -/
def blockSize : Nat := 8192

/-- Decodes the bytes of a file that should be text. -/
def decodeStrict (bytes : List UInt8) : Except Undecodable (List Char) :=
  decodeBlocks blockSize (bytes.length / blockSize + 2) [] bytes

/-- Two digits in base sixteen. -/
def hexByte (b : UInt8) : String :=
  String.ofList ((Nat.toDigits 16 (b.toNat / 16)) ++ (Nat.toDigits 16 (b.toNat % 16)))

/-- The fault in words, with the bytes concerned. -/
def Undecodable.message (u : Undecodable) : String :=
  let place := match u.bytes with
    | [b] => s!"byte 0x{hexByte b} in position {u.position}"
    | bs => s!"bytes in position {u.position}-{u.position + bs.length - 1}"
  s!"'utf-8' codec can't decode {place}: {u.fault.words}"

/-- Line ends of any kind become line feeds. -/
def unifyNewlines : List Char → List Char
  | [] => []
  | '\r' :: '\n' :: rest => '\n' :: unifyNewlines rest
  | '\r' :: rest => '\n' :: unifyNewlines rest
  | c :: rest => c :: unifyNewlines rest

end ScriptModules.Text
