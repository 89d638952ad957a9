namespace Linkage.Text.Utf8

def followers (first : UInt8) : Option (List (UInt8 × UInt8)) :=
  let any : UInt8 × UInt8 := (0x80, 0xBF)
  if first < 0x80 then some []
  else if first < 0xC2 then none
  else if first < 0xE0 then some [any]
  else if first = 0xE0 then some [(0xA0, 0xBF), any]
  else if first = 0xED then some [(0x80, 0x9F), any]
  else if first < 0xF0 then some [any, any]
  else if first = 0xF0 then some [(0x90, 0xBF), any, any]
  else if first < 0xF4 then some [any, any, any]
  else if first = 0xF4 then some [(0x80, 0x8F), any, any]
  else none

def matching : List (UInt8 × UInt8) → List UInt8 → Nat
  | (least, greatest) :: ranges, b :: rest =>
      if least ≤ b && b ≤ greatest then matching ranges rest + 1 else 0
  | _, _ => 0

def leadingBits (first : UInt8) (width : Nat) : Nat :=
  if width = 0 then first.toNat else first.toNat % (0x40 >>> width)

def replacement : Char := '\uFFFD'

def decodeLossy : List UInt8 → List Char
  | [] => []
  | first :: rest =>
      match followers first with
      | none => replacement :: decodeLossy rest
      | some ranges =>
          let width := matching ranges rest
          let char :=
            if width = ranges.length then
              Char.ofNat ((rest.take width).foldl
                (fun n b => n * 0x40 + b.toNat % 0x40) (leadingBits first width))
            else
              replacement
          char :: decodeLossy (rest.drop width)
termination_by bytes => bytes.length
decreasing_by
  · simp
  · simp only [List.length_drop, List.length_cons]
    omega

end Linkage.Text.Utf8
