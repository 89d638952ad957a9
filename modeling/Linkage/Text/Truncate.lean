namespace Linkage.Text

def maxTextBytes : Nat := 256 * 1024

def trimmedText? (data : ByteArray) (trim : Nat) : Option String :=
  let bound := min data.size maxTextBytes
  if trim ≤ bound then String.fromUTF8? (data.extract 0 (bound - trim)) else none

-- The text of the first `maxTextBytes` bytes. Up to three bytes are given up at the end, since a
-- cut inside a character leaves at most three of its bytes.
def truncateUtf8 (data : ByteArray) : Option String :=
  [0, 1, 2, 3].findSome? (trimmedText? data)

end Linkage.Text
