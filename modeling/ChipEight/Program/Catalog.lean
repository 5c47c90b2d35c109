import ChipEight.Program.Image

/-!
# Program/Catalog — the built-in programs

Two programs that use only the core instructions, so they run the same in either draw mode.  Their
words are given as a listing would show them.
-/

namespace ChipEight

/-- A program a user can pick. -/
structure CatalogEntry where
  id : String
  name : String
  description : String
  category : String
  image : List UInt8
  sizeBytes : Nat
  controls : Option String
  deriving DecidableEq

namespace Catalog

/-- Words as bytes, high byte first. -/
def bytesOfWords (words : List Nat) : List UInt8 :=
  words.flatMap fun w => [UInt8.ofNat (w / 0x100), UInt8.ofNat w]

/-- Draws the sixteen glyphs in two rows of eight, one every eight columns, and then idles. -/
def hexDigitsImage : List UInt8 := bytesOfWords
  [0x6000, -- 200: LD V0, 0x00     the digit
   0x6101, -- 202: LD V1, 0x01     its column
   0x6201, -- 204: LD V2, 0x01     its row
   0xF029, -- 206: LD F, V0
   0xD125, -- 208: DRW V1, V2, 5
   0x7001, -- 20A: ADD V0, 0x01
   0x7108, -- 20C: ADD V1, 0x08
   0x3008, -- 20E: SE V0, 0x08     digit 8 starts the second row
   0x1216, -- 210: JP 0x216
   0x6101, -- 212: LD V1, 0x01
   0x6208, -- 214: LD V2, 0x08
   0x3010, -- 216: SE V0, 0x10
   0x1206, -- 218: JP 0x206
   0x121A] -- 21A: JP 0x21A

/-- The address of the loop that the glyph program ends in. -/
def hexDigitsIdle : Nat := 0x21A

/-- Waits for a key, then shows the released key at the top left and how many there have been, in
three digits, to its right. -/
def keyEchoImage : List UInt8 := bytesOfWords
  [0x6300, -- 200: LD V3, 0x00     the count
   0xF00A, -- 202: LD V0, K
   0x00E0, -- 204: CLS
   0x7301, -- 206: ADD V3, 0x01
   0xF029, -- 208: LD F, V0
   0x6101, -- 20A: LD V1, 0x01
   0x6201, -- 20C: LD V2, 0x01
   0xD125, -- 20E: DRW V1, V2, 5   the key
   0xA300, -- 210: LD I, 0x300
   0xF333, -- 212: LD B, V3
   0xF265, -- 214: LD V2, [I]      hundreds, tens and units in V0 to V2
   0x6414, -- 216: LD V4, 0x14
   0x6501, -- 218: LD V5, 0x01
   0xF029, -- 21A: LD F, V0
   0xD455, -- 21C: DRW V4, V5, 5
   0x7405, -- 21E: ADD V4, 0x05
   0xF129, -- 220: LD F, V1
   0xD455, -- 222: DRW V4, V5, 5
   0x7405, -- 224: ADD V4, 0x05
   0xF229, -- 226: LD F, V2
   0xD455, -- 228: DRW V4, V5, 5
   0x1202] -- 22A: JP 0x202

def hexDigits : CatalogEntry where
  id := "hex-digits"
  name := "HEX DIGITS"
  description :=
    "Draws the sixteen built-in font glyphs, 0-7 on the first row and 8-F on the second."
  category := "demo"
  image := hexDigitsImage
  sizeBytes := hexDigitsImage.length
  controls := none

def keyEcho : CatalogEntry where
  id := "key-echo"
  name := "KEY ECHO"
  description :=
    "Waits for a key, then shows the key that was released together with a running count of "
      ++ "presses."
  category := "utility"
  image := keyEchoImage
  sizeBytes := keyEchoImage.length
  controls := some "Press and release any key 0-F. The key registers on release."

/-- The program a host starts with. -/
def boot : CatalogEntry := hexDigits

/-- Every built-in program, in the order they are offered. -/
def entries : List CatalogEntry := [hexDigits, keyEcho]

def find? (id : String) : Option CatalogEntry := entries.find? (·.id = id)

end Catalog

end ChipEight
