/-! # UTF-8

* **`Utf8.scan`** — the characters of a sequence of bytes, with `none` for each byte that no
  character accounts for.
* **`Utf8.decode?`** — the characters of a well-formed sequence. -/

namespace PayloadGate.Text.Utf8

/-- A byte that continues a character: `80` to `BF`. -/
def isTail (b : UInt8) : Bool := 0x80 ≤ b && b ≤ 0xBF

/-- The six value bits of a continuing byte. -/
def tailBits (b : UInt8) : Nat := b.toNat % 64

/-- The two bytes of a character from U+0080 to U+07FF: `a` is one of `C2` to `DF`, and `b` continues it. -/
def two? (a b : UInt8) : Option Char :=
  if 0xC2 ≤ a && a ≤ 0xDF && isTail b then some (Char.ofNat (a.toNat % 32 * 64 + tailBits b))
  else none

/-- The three bytes of a character from U+0800 to U+FFFF; the second byte rules out shorter
characters and surrogates. -/
def three? (a b c : UInt8) : Option Char :=
  if ((a == 0xE0 && 0xA0 ≤ b && b ≤ 0xBF)
      || (a == 0xED && 0x80 ≤ b && b ≤ 0x9F)
      || (0xE1 ≤ a && a ≤ 0xEF && a != 0xED && isTail b)) && isTail c then
    some (Char.ofNat (a.toNat % 16 * 4096 + tailBits b * 64 + tailBits c))
  else none

/-- The four bytes of a character from U+10000 to U+10FFFF. -/
def four? (a b c d : UInt8) : Option Char :=
  if ((a == 0xF0 && 0x90 ≤ b && b ≤ 0xBF)
      || (a == 0xF4 && 0x80 ≤ b && b ≤ 0x8F)
      || (0xF1 ≤ a && a ≤ 0xF3 && isTail b)) && isTail c && isTail d then
    some (Char.ofNat (a.toNat % 8 * 262144 + tailBits b * 4096 + tailBits c * 64 + tailBits d))
  else none

/-- The character that starts with byte `a`, and the number of further bytes it takes: none below `80`, else as many as
`two?`, `three?` or `four?` reads. -/
def first? (a : UInt8) (rest : List UInt8) : Option (Char × Nat) :=
  if a < 0x80 then some (Char.ofNat a.toNat, 0)
  else match rest with
    | [] => none
    | [b] => (two? a b).map (·, 1)
    | [b, c] => ((two? a b).map (·, 1)).or ((three? a b c).map (·, 2))
    | b :: c :: d :: _ =>
      (((two? a b).map (·, 1)).or ((three? a b c).map (·, 2))).or ((four? a b c d).map (·, 3))

/-- The characters of a sequence of bytes of which the first `taken` belong to a character that has
been read. -/
def scanFrom : Nat → List UInt8 → List (Option Char)
  | _, [] => []
  | taken + 1, _ :: rest => scanFrom taken rest
  | 0, a :: rest =>
    match first? a rest with
    | some (c, more) => some c :: scanFrom more rest
    -- a byte of no character is passed over alone
    | none => none :: scanFrom 0 rest

/-- **The characters of a sequence of bytes**, `none` standing for a byte of no character. -/
def scan (bytes : List UInt8) : List (Option Char) := scanFrom 0 bytes

/-- **The characters of a well-formed sequence of bytes**, `none` when any byte belongs to no character. -/
def decode? (bytes : List UInt8) : Option (List Char) := (scan bytes).mapM id

end PayloadGate.Text.Utf8
