import RideHud.Draw.Raster

/-!
# Portable network graphics

A picture is written as its header, its rows and an end mark, each with a checksum. The rows are not
compressed, so a file is a little larger than the pixels.
-/

namespace RideHud.Png

/-! ## Checksums -/

/-- The remainder for one more bit. -/
def crcBit (c : UInt32) : UInt32 :=
  if c &&& 1 == 1 then (c >>> 1) ^^^ 0xedb88320 else c >>> 1

/-- The remainder for one more byte. -/
def crcByte (c : UInt32) (b : UInt8) : UInt32 := Nat.repeat crcBit 8 (c ^^^ b.toUInt32)

/-- The cyclic checksum of some bytes. -/
def crc (bytes : ByteArray) : UInt32 := bytes.foldl crcByte 0xffffffff ^^^ 0xffffffff

/-- The sum of some bytes, and the sum of these sums, both modulo the largest prime of two bytes. -/
def adler (bytes : ByteArray) : UInt32 :=
  let (a, b) := bytes.foldl (fun (a, b) x =>
    let a := (a + x.toUInt32) % 65521
    (a, (b + a) % 65521)) ((1, 0) : UInt32 × UInt32)
  b <<< 16 ||| a

/-! ## Parts -/

/-- A number in four bytes, the highest first. -/
def bigEndian (n : UInt32) : ByteArray :=
  ⟨#[(n >>> 24).toUInt8, (n >>> 16).toUInt8, (n >>> 8).toUInt8, n.toUInt8]⟩

/-- A named part of a file. -/
def part (name : String) (content : ByteArray) : ByteArray :=
  let named := name.toUTF8 ++ content
  bigEndian content.size.toUInt32 ++ named ++ bigEndian (crc named)

/-- The most bytes of a block. -/
def blockSize : Nat := 65535

/-- Bytes in blocks that are stored as they are. -/
def blocks (bytes : ByteArray) : ByteArray :=
  (List.range (max 1 ((bytes.size + blockSize - 1) / blockSize))).foldl (fun out i =>
    let block := bytes.extract (i * blockSize) ((i + 1) * blockSize)
    let size := block.size.toUInt16
    let isLast : UInt8 := if bytes.size ≤ (i + 1) * blockSize then 1 else 0
    let head := [isLast, size.toUInt8, (size >>> 8).toUInt8, (~~~size).toUInt8,
      (~~~size >>> 8).toUInt8]
    out ++ ⟨head.toArray⟩ ++ block) .empty

/-- Bytes as a stream that a decoder inflates. -/
def stream (bytes : ByteArray) : ByteArray :=
  ⟨#[0x78, 0x01]⟩ ++ blocks bytes ++ bigEndian (adler bytes)

/-- The rows of a picture, each after a mark that its bytes are as they are. -/
def rows (r : Raster) : ByteArray :=
  (List.range r.height).foldl (fun out y =>
    (List.range r.width).foldl (fun out x =>
      ((r.pixel? x y).getD {}).toList.foldl (fun out b => out.push b.toUInt8) out)
      (out.push 0)) .empty

/-- The file of a picture. -/
def encode (r : Raster) : ByteArray :=
  let head := bigEndian r.width.toUInt32 ++ bigEndian r.height.toUInt32 ++ ⟨#[8, 6, 0, 0, 0]⟩
  ⟨#[0x89, 0x50, 0x4e, 0x47, 0x0d, 0x0a, 0x1a, 0x0a]⟩ ++ part "IHDR" head ++
    part "IDAT" (stream (rows r)) ++ part "IEND" .empty

end RideHud.Png
