/-!
# UTF-8

Text is decoded from bytes strictly: no overlong forms, no surrogates, nothing past U+10FFFF. A text
that is not UTF-8 is reported by the offset where its first bad sequence starts.
-/

namespace StructPadding.Text.Utf8

/-- Whether a byte continues a sequence. -/
def isContinuation (b : UInt8) : Bool :=
  0x80 ≤ b && b ≤ 0xbf

/-- The six bits a continuation byte carries. -/
def payload (b : UInt8) : Nat :=
  b.toNat % 64

/-- The second bytes allowed after the first byte of a sequence of three. -/
def second3 (b b1 : UInt8) : Bool :=
  isContinuation b1 && (b != 0xe0 || 0xa0 ≤ b1) && (b != 0xed || b1 ≤ 0x9f)

/-- The second bytes allowed after the first byte of a sequence of four. -/
def second4 (b b1 : UInt8) : Bool :=
  isContinuation b1 && (b != 0xf0 || 0x90 ≤ b1) && (b != 0xf4 || b1 ≤ 0x8f)

/-- Decodes the bytes that stand at `offset`. -/
def decodeFrom (offset : Nat) : List UInt8 → Except Nat (List Char)
  | [] => .ok []
  | b :: rest =>
    if b < 0x80 then
      (decodeFrom (offset + 1) rest).map (Char.ofNat b.toNat :: ·)
    else
      match rest with
      | [] => .error offset
      | b1 :: rest =>
        if 0xc2 ≤ b && b ≤ 0xdf && isContinuation b1 then
          (decodeFrom (offset + 2) rest).map (Char.ofNat (b.toNat % 32 * 64 + payload b1) :: ·)
        else
          match rest with
          | [] => .error offset
          | b2 :: rest =>
            if 0xe0 ≤ b && b ≤ 0xef && second3 b b1 && isContinuation b2 then
              (decodeFrom (offset + 3) rest).map
                (Char.ofNat ((b.toNat % 16 * 64 + payload b1) * 64 + payload b2) :: ·)
            else
              match rest with
              | [] => .error offset
              | b3 :: rest =>
                if 0xf0 ≤ b && b ≤ 0xf4 && second4 b b1 && isContinuation b2 &&
                    isContinuation b3 then
                  (decodeFrom (offset + 4) rest).map
                    (Char.ofNat
                      (((b.toNat % 8 * 64 + payload b1) * 64 + payload b2) * 64 + payload b3) :: ·)
                else .error offset

/-- The characters that bytes encode, or the offset of the first bad sequence. -/
def decode (bytes : List UInt8) : Except Nat (List Char) :=
  decodeFrom 0 bytes

/-- The bytes of a text. -/
def encode (s : String) : List UInt8 :=
  s.toUTF8.toList

/-- The number of bytes that encode some characters. -/
def size : List Char → Nat
  | [] => 0
  | c :: cs => c.utf8Size + size cs

end StructPadding.Text.Utf8
