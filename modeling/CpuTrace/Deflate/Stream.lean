import CpuTrace.Deflate.Inflate

/-!
# Compressed streams with a checksum

A stream starts with two bytes that name the method and check themselves, and ends with a checksum
of what it stands for. Bytes after the checksum are not looked at.
-/

namespace CpuTrace.Deflate

/-- The modulus of the checksum. -/
def checksumModulus : Nat := 65521

/-- The checksum: the sum of the bytes and the sum of its values on the way, in one number. -/
def checksum (bs : Array UInt8) : Nat :=
  let (a, b) := bs.foldl (fun (a, b) byte =>
    let a := (a + byte.toNat) % checksumModulus
    (a, (b + a) % checksumModulus)) (1, 0)
  65536 * b + a

/-- Whether two bytes start a stream: the method is the known one, its window is not too large, no
dictionary is asked for, and the bytes check. -/
def isHeader (method flags : UInt8) : Bool :=
  method.toNat % 16 == 8 && method.toNat / 16 ≤ 7 && !flags.toNat.testBit 5 &&
    (256 * method.toNat + flags.toNat) % 31 == 0

/-- What a stream stands for. -/
def decompress (bs : List UInt8) : Option (List UInt8) :=
  match bs with
  | method :: flags :: body =>
    if isHeader method flags then
      match inflate body with
      | some (out, a :: b :: c :: d :: _) =>
        let given := 16777216 * a.toNat + 65536 * b.toNat + 256 * c.toNat + d.toNat
        if given = checksum out then some out.toList else none
      | _ => none
    else none
  | _ => none

end CpuTrace.Deflate
