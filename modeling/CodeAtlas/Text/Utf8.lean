/-!
Text stored as bytes. `strict?` reads well-formed UTF-8 only; `lossy` reads anything, writing one
replacement character for each longest piece that could have begun a character but does not
complete one.
-/
namespace CodeAtlas.Text.Utf8

def replacement : Char := '\uFFFD'

/-- How many bytes follow a first byte and the least and greatest value of the next one; nothing
for a byte that begins no character. -/
def announces (b : UInt8) : Option (Nat × UInt8 × UInt8) :=
  if b < 0x80 then some (0, 0x80, 0xBF)
  else if b < 0xC2 then none
  else if b < 0xE0 then some (1, 0x80, 0xBF)
  else if b == 0xE0 then some (2, 0xA0, 0xBF)
  else if b == 0xED then some (2, 0x80, 0x9F)
  else if b < 0xF0 then some (2, 0x80, 0xBF)
  else if b == 0xF0 then some (3, 0x90, 0xBF)
  else if b < 0xF4 then some (3, 0x80, 0xBF)
  else if b == 0xF4 then some (3, 0x80, 0x8F)
  else none

def payload (b : UInt8) : Nat → Nat
  | 0 => b.toNat
  | 1 => b.toNat % 0x20
  | 2 => b.toNat % 0x10
  | _ => b.toNat % 0x08

/-- The longest run of at most `n` bytes that continue a character, the first between the given
bounds. -/
def tails : Nat → UInt8 → UInt8 → List UInt8 → List UInt8
  | n + 1, low, high, b :: rest =>
    if low ≤ b && b ≤ high then b :: tails n 0x80 0xBF rest else []
  | _, _, _, _ => []

def firstChar (b : UInt8) (rest : List UInt8) : Char × Nat :=
  match announces b with
  | none => (replacement, 0)
  | some (n, low, high) =>
    let found := tails n low high rest
    if found.length = n then
      (Char.ofNat (found.foldl (fun v t => v * 0x40 + t.toNat % 0x40) (payload b n)), n)
    else (replacement, found.length)

def decode : List UInt8 → List Char
  | [] => []
  | b :: rest =>
    let (c, n) := firstChar b rest
    c :: decode (rest.drop n)
termination_by bytes => bytes.length
decreasing_by
  simp only [List.length_drop, List.length_cons]
  omega

def lossy (bytes : ByteArray) : String :=
  String.ofList (decode bytes.toList)

def strict? (bytes : ByteArray) : Option String :=
  String.fromUTF8? bytes

end CodeAtlas.Text.Utf8
