import Linkage.Bytes

namespace Linkage.Inflate

structure State where
  position : Nat
  out : ByteArray

abbrev BitReader (α : Type) := ReaderT ByteArray (StateT State Option) α

def bit : BitReader Nat := do
  let state ← get
  match (← read)[state.position / 8]? with
  | some byte =>
      set { state with position := state.position + 1 }
      return byte.toNat >>> (state.position % 8) % 2
  | none => failure

def bits : (n : Nat) → BitReader Nat
  | 0 => return 0
  | n + 1 => do
      let low ← bit
      return low + 2 * (← bits n)

def write (byte : UInt8) : BitReader Unit :=
  modify fun state => { state with out := state.out.push byte }

def align : BitReader Unit :=
  modify fun state => { state with position := (state.position + 7) / 8 * 8 }

structure Code where
  counts : List Nat
  symbols : Array Nat
  space : Nat
  deriving Repr

namespace Code

def maxLength : Nat := 15

def lengthsInUse : List Nat := List.range' 1 maxLength

def ofLengths (lengths : List Nat) : Code where
  counts := lengthsInUse.map lengths.count
  symbols := (lengthsInUse.flatMap fun n =>
    (lengths.zipIdx.filter (·.1 = n)).map (·.2)).toArray
  space := lengthsInUse.foldl (fun total n => total + lengths.count n <<< (maxLength - n)) 0

def isComplete (code : Code) : Bool :=
  code.space = 1 <<< maxLength

def isAdmissible (code : Code) : Bool :=
  code.isComplete || code.symbols.size ≤ 1

def decodeFrom (code : Code) : (counts : List Nat) → (word first index : Nat) → BitReader Nat
  | [], _, _, _ => failure
  | count :: rest, word, first, index => do
      let word := word + (← bit)
      if word < first + count then
        match code.symbols[index + (word - first)]? with
        | some symbol => return symbol
        | none => failure
      else
        code.decodeFrom rest (2 * word) (2 * (first + count)) (index + count)

def decode (code : Code) : BitReader Nat :=
  code.decodeFrom code.counts 0 0 0

end Code

def lengthTable : List (Nat × Nat) :=
  [(3, 0), (4, 0), (5, 0), (6, 0), (7, 0), (8, 0), (9, 0), (10, 0), (11, 1), (13, 1), (15, 1),
    (17, 1), (19, 2), (23, 2), (27, 2), (31, 2), (35, 3), (43, 3), (51, 3), (59, 3), (67, 4),
    (83, 4), (99, 4), (115, 4), (131, 5), (163, 5), (195, 5), (227, 5), (258, 0)]

def distanceTable : List (Nat × Nat) :=
  [(1, 0), (2, 0), (3, 0), (4, 0), (5, 1), (7, 1), (9, 2), (13, 2), (17, 3), (25, 3), (33, 4),
    (49, 4), (65, 5), (97, 5), (129, 6), (193, 6), (257, 7), (385, 7), (513, 8), (769, 8),
    (1025, 9), (1537, 9), (2049, 10), (3073, 10), (4097, 11), (6145, 11), (8193, 12),
    (12289, 12), (16385, 13), (24577, 13)]

def extended (table : List (Nat × Nat)) (symbol : Nat) : BitReader Nat :=
  match table[symbol]? with
  | some (least, extra) => return least + (← bits extra)
  | none => failure

def byteBack (out : ByteArray) (distance : Nat) : UInt8 :=
  if distance ≤ out.size then out[out.size - distance]?.getD 0 else 0

def copyBack (distance : Nat) : (length : Nat) → ByteArray → ByteArray
  | 0, out => out
  | length + 1, out => copyBack distance length (out.push (byteBack out distance))

def symbols (literals distances : Code) : (fuel : Nat) → BitReader Unit
  | 0 => failure
  | fuel + 1 => do
      let symbol ← literals.decode
      if symbol < 256 then
        write symbol.toUInt8
        symbols literals distances fuel
      else if symbol = 256 then
        return
      else
        let length ← extended lengthTable (symbol - 257)
        let distance ← extended distanceTable (← distances.decode)
        modify fun state => { state with out := copyBack distance length state.out }
        symbols literals distances fuel

def fixedLiterals : List Nat :=
  List.replicate 144 8 ++ List.replicate 112 9 ++ List.replicate 24 7 ++ List.replicate 8 8

def lengthOrder : List Nat :=
  [16, 17, 18, 0, 8, 7, 9, 6, 10, 5, 11, 4, 12, 3, 13, 2, 14, 1, 15]

def codeLengths (code : Code) (wanted : Nat) : (fuel : Nat) → List Nat → BitReader (List Nat)
  | 0, _ => failure
  | fuel + 1, done => do
      if done.length = wanted then
        return done
      else if wanted < done.length then
        failure
      else
        let symbol ← code.decode
        if symbol < 16 then
          codeLengths code wanted fuel (done ++ [symbol])
        else if symbol = 16 then
          match done.getLast? with
          | some last => codeLengths code wanted fuel (done ++ List.replicate (3 + (← bits 2)) last)
          | none => failure
        else
          let zeros ← if symbol = 17 then (3 + ·) <$> bits 3 else (11 + ·) <$> bits 7
          codeLengths code wanted fuel (done ++ List.replicate zeros 0)

def admissibleCode (lengths : List Nat) : BitReader Code := do
  let code := Code.ofLengths lengths
  if code.isAdmissible then return code else failure

def maxLiterals : Nat := 286

def maxDistances : Nat := 30

def dynamicCodes : BitReader (Code × Code) := do
  let literalCount := 257 + (← bits 5)
  let distanceCount := 1 + (← bits 5)
  let lengthCount := 4 + (← bits 4)
  if maxLiterals < literalCount || maxDistances < distanceCount then
    failure
  let lengths ← (lengthOrder.take lengthCount).mapM fun symbol => do return (symbol, ← bits 3)
  let code := Code.ofLengths ((List.range 19).map fun symbol => (lengths.lookup symbol).getD 0)
  if !code.isComplete then
    failure
  let total := literalCount + distanceCount
  let all ← codeLengths code total (total + 1) []
  return (← admissibleCode (all.take literalCount), ← admissibleCode (all.drop literalCount))

def storedBlock : BitReader Unit := do
  align
  let length ← bits 16
  let complement ← bits 16
  if length + complement ≠ 0xFFFF then
    failure
  let data ← read
  let start := (← get).position / 8
  let stop := start + length
  if data.size < stop then
    failure
  modify fun state => ⟨8 * stop, state.out ++ data.extract start stop⟩

def blocks (limit : Nat) : (fuel : Nat) → BitReader Unit
  | 0 => failure
  | fuel + 1 => do
      let isLast ← bit
      let form ← bits 2
      match form with
      | 0 => storedBlock
      | 1 =>
          symbols (Code.ofLengths fixedLiterals) (Code.ofLengths (List.replicate 32 5)) limit
      | 2 => do
          let (literals, distances) ← dynamicCodes
          symbols literals distances limit
      | _ => failure
      if isLast = 1 then return else blocks limit fuel

def inflate (data : ByteArray) : Option ByteArray := do
  let limit := 8 * data.size + 1
  let (_, state) ← (blocks limit limit).run data |>.run ⟨0, ByteArray.empty⟩
  return state.out

end Linkage.Inflate
