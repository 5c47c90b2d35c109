import ChipEight.Archive.PrefixCode

/-!
# Archive/Deflate — expanding deflated data

Deflated data is a row of blocks; the last one is marked.  A block holds its bytes as they are, or
as literals and copies of earlier output under two prefix codes, which are the standard ones or are
described at the start of the block.

Data that ends early or means nothing is not refused here.  Output is handed on in chunks, and the
last, partial chunk only once the data has ended well, so what a broken stream yields are full
chunks (`handedOn`).
-/

namespace ChipEight.Deflate

open Bits

/-! ## Literals and copies -/

inductive Token where
  | literal (b : UInt8)
  | copy (length distance : Nat)
  | endOfBlock

/-- For each length symbol its least length and the number of bits that are added to it. -/
def lengthTable : List (Nat × Nat) :=
  [(3, 0), (4, 0), (5, 0), (6, 0), (7, 0), (8, 0), (9, 0), (10, 0), (11, 1), (13, 1), (15, 1),
   (17, 1), (19, 2), (23, 2), (27, 2), (31, 2), (35, 3), (43, 3), (51, 3), (59, 3), (67, 4),
   (83, 4), (99, 4), (115, 4), (131, 5), (163, 5), (195, 5), (227, 5), (258, 0)]

/-- For each distance symbol its least distance and the number of bits that are added to it. -/
def distanceTable : List (Nat × Nat) :=
  [(1, 0), (2, 0), (3, 0), (4, 0), (5, 1), (7, 1), (9, 2), (13, 2), (17, 3), (25, 3), (33, 4),
   (49, 4), (65, 5), (97, 5), (129, 6), (193, 6), (257, 7), (385, 7), (513, 8), (769, 8),
   (1025, 9), (1537, 9), (2049, 10), (3073, 10), (4097, 11), (6145, 11), (8193, 12), (12289, 12),
   (16385, 13), (24577, 13)]

/-- An amount whose symbol a table explains. -/
def amount (table : List (Nat × Nat)) (symbol : Nat) (bits : List Bool) :
    Except Stop (Nat × List Bool) :=
  match table[symbol]? with
  | none => .error (.invalid bits)
  | some (least, extra) => do
    let (more, rest) ← number extra bits
    return (least + more, rest)

theorem length_of_amount {table : List (Nat × Nat)} {symbol v : Nat} {bits rest : List Bool}
    (h : amount table symbol bits = .ok (v, rest)) : rest.length ≤ bits.length := by
  unfold amount at h
  split at h
  · cases h
  obtain ⟨_, h1, h⟩ := eq_ok_of_bind h
  cases h
  have := length_of_number h1
  omega

/-- The two codes of a block: of literals and lengths, and of distances. -/
structure Codes where
  literals : PrefixCode
  distances : PrefixCode

/-- One token of a block. -/
def Codes.token (c : Codes) (bits : List Bool) : Except Stop (Token × List Bool) := do
  let (symbol, rest) ← c.literals.read bits
  if symbol < 256 then return (.literal (UInt8.ofNat symbol), rest)
  else if symbol = 256 then return (.endOfBlock, rest)
  else
    let (length, rest) ← amount lengthTable (symbol - 257) rest
    let (symbol, rest) ← c.distances.read rest
    let (distance, rest) ← amount distanceTable symbol rest
    return (.copy length distance, rest)

theorem Codes.length_of_token {c : Codes} {bits rest : List Bool} {t : Token}
    (h : c.token bits = .ok (t, rest)) : rest.length < bits.length := by
  obtain ⟨_, h1, h⟩ := eq_ok_of_bind h
  have := PrefixCode.length_of_read h1
  dsimp only at h
  split at h
  · cases h; exact this
  split at h
  · cases h; exact this
  obtain ⟨_, h2, h⟩ := eq_ok_of_bind h
  obtain ⟨_, h3, h⟩ := eq_ok_of_bind h
  obtain ⟨_, h4, h⟩ := eq_ok_of_bind h
  cases h
  have := length_of_amount h2
  have := PrefixCode.length_of_read h3
  have := length_of_amount h4
  omega

/-- Output so far, and the bits that came next when its last byte was written. -/
structure Output where
  bytes : Array UInt8
  left : List Bool

/-- Appends a byte. -/
def Output.push (out : Output) (b : UInt8) (left : List Bool) : Output := ⟨out.bytes.push b, left⟩

/-- Appends a copy of earlier output, byte by byte: the copy may run into itself. -/
def Output.copyBack (out : Output) (distance : Nat) (left : List Bool) : Nat → Output
  | 0 => out
  | n + 1 =>
    let b := out.bytes[out.bytes.size - distance]?.getD 0
    (out.push b left).copyBack distance left n

/-- Output so far, and the bits left for what follows. -/
abbrev Progress := Output × Except Stop (List Bool)

/-- Expands the tokens of a block up to its end. -/
def expand (c : Codes) (out : Output) (bits : List Bool) : Progress :=
  match h : c.token bits with
  | .error s => (out, .error s)
  | .ok (.endOfBlock, rest) => (out, .ok rest)
  | .ok (.literal b, rest) =>
    have := Codes.length_of_token h
    expand c (out.push b rest) rest
  | .ok (.copy length distance, rest) =>
    have := Codes.length_of_token h
    if out.bytes.size < distance then (out, .error .unavailable)
    else expand c (out.copyBack distance rest length) rest
termination_by bits.length

theorem length_of_expand {c : Codes} {out : Output} {bits rest : List Bool}
    (h : (expand c out bits).2 = .ok rest) : rest.length ≤ bits.length := by
  fun_induction expand c out bits with
  | case1 => cases h
  | case2 _ _ _ ht => cases h; exact Nat.le_of_lt (Codes.length_of_token ht)
  | case3 _ _ _ _ ht _ ih => exact Nat.le_trans (ih h) (Nat.le_of_lt (Codes.length_of_token ht))
  | case4 => cases h
  | case5 _ _ _ _ _ ht _ _ ih =>
    exact Nat.le_trans (ih h) (Nat.le_of_lt (Codes.length_of_token ht))

/-! ## Blocks -/

/-- The standard codes. -/
def standardCodes : Codes where
  literals := .ofLengths
    (.replicate 144 8 ++ .replicate 112 9 ++ .replicate 24 7 ++ .replicate 8 8)
  distances := .ofLengths (.replicate 32 5)

/-- The order in which a block gives the lengths of the code for code lengths. -/
def lengthOrder : List Nat :=
  [16, 17, 18, 0, 8, 7, 9, 6, 10, 5, 11, 4, 12, 3, 13, 2, 14, 1, 15]

/-- The code for code lengths.  One that has no word takes every bit for a zero. -/
def lengthCode (lengths : List Nat) : PrefixCode :=
  if PrefixCode.used lengths = 0 then ⟨.leaf 0, .leaf 0⟩ else .ofLengths lengths

/-- What a symbol of the code for code lengths stands for: a length and how often, given the one
before it. -/
def repeated (symbol : Nat) (last : Option Nat) (bits : List Bool) :
    Except Stop ((Nat × Nat) × List Bool) :=
  if symbol < 16 then .ok ((symbol, 1), bits)
  else
    let (value, least, width) :=
      if symbol = 16 then (last, 3, 2) else if symbol = 17 then (some 0, 3, 3) else (some 0, 11, 7)
    do
      let (more, rest) ← number width bits
      match value with
      | none => .error (.invalid rest)
      | some value => return ((value, least + more), rest)

theorem length_of_repeated {symbol : Nat} {last : Option Nat} {bits rest : List Bool}
    {v : Nat × Nat} (h : repeated symbol last bits = .ok (v, rest)) :
    rest.length ≤ bits.length := by
  unfold repeated at h
  split at h
  · cases h; exact Nat.le_refl _
  obtain ⟨_, h1, h⟩ := eq_ok_of_bind h
  dsimp only at h
  split at h
  · cases h
  cases h
  have := length_of_number h1
  omega

/-- The code lengths of a block, so many of them, newest first. -/
def codeLengths (code : PrefixCode) (wanted : Nat) (found : List Nat) (bits : List Bool) :
    Except Stop (List Nat × List Bool) :=
  if found.length = wanted then .ok (found.reverse, bits)
  else
    match h1 : code.read bits with
    | .error s => .error s
    | .ok (symbol, rest) =>
      match h2 : repeated symbol found.head? rest with
      | .error s => .error s
      | .ok ((value, times), rest') =>
        have := PrefixCode.length_of_read h1
        have := length_of_repeated h2
        if wanted < found.length + times then .error (.invalid rest')
        else codeLengths code wanted (.replicate times value ++ found) rest'
termination_by bits.length

theorem length_of_codeLengths {code : PrefixCode} {wanted : Nat} {found vs : List Nat}
    {bits rest : List Bool} (h : codeLengths code wanted found bits = .ok (vs, rest)) :
    rest.length ≤ bits.length := by
  fun_induction codeLengths code wanted found bits with
  | case1 => cases h; exact Nat.le_refl _
  | case2 => cases h
  | case3 => cases h
  | case4 => cases h
  | case5 _ _ _ _ _ h1 _ _ _ h2 _ _ _ ih =>
    have := ih h
    have := PrefixCode.length_of_read h1
    have := length_of_repeated h2
    omega

/-- The codes a block describes. -/
def describedCodes (bits : List Bool) : Except Stop (Codes × List Bool) := do
  let (literals, rest) ← number 5 bits
  let (distances, rest) ← number 5 rest
  let (orders, rest) ← number 4 rest
  if 29 < literals ∨ 29 < distances then .error (.invalid rest)
  else
    let (given, rest) ← numbers 3 (orders + 4) rest
    let lengths := (List.range 19).map fun symbol => ((lengthOrder.zip given).lookup symbol).getD 0
    if PrefixCode.used lengths ≠ 0 ∧ PrefixCode.used lengths ≠ PrefixCode.wordCount then
      .error (.invalid rest)
    else
      let literals := literals + 257
      let (all, rest) ← codeLengths (lengthCode lengths) (literals + (distances + 1)) [] rest
      let first := all.take literals
      let second := all.drop literals
      if first[256]? = some 0 ∨ ¬ PrefixCode.IsCode first ∨ ¬ PrefixCode.IsCode second then
        .error (.invalid rest)
      else return (⟨.ofLengths first, .ofLengths second⟩, rest)

theorem length_of_describedCodes {bits rest : List Bool} {c : Codes}
    (h : describedCodes bits = .ok (c, rest)) : rest.length ≤ bits.length := by
  obtain ⟨⟨_, _⟩, h1, h⟩ := eq_ok_of_bind h
  obtain ⟨⟨_, _⟩, h2, h⟩ := eq_ok_of_bind h
  obtain ⟨⟨_, _⟩, h3, h⟩ := eq_ok_of_bind h
  dsimp only at h
  split at h
  · cases h
  obtain ⟨⟨_, _⟩, h4, h⟩ := eq_ok_of_bind h
  dsimp only at h
  split at h
  · cases h
  obtain ⟨⟨_, _⟩, h5, h⟩ := eq_ok_of_bind h
  dsimp only at h
  split at h
  · cases h
  cases h
  have := length_of_number h1
  have := length_of_number h2
  have := length_of_number h3
  have := length_of_numbers h4
  have := length_of_codeLengths h5
  omega

/-- So many bytes as they are, as far as the bits go. -/
def copyPlain (out : Output) (bits : List Bool) : Nat → Progress
  | 0 => (out, .ok bits)
  | n + 1 =>
    match number 8 bits with
    | .error s => (out, .error s)
    | .ok (b, rest) => copyPlain (out.push (UInt8.ofNat b) rest) rest n

theorem length_of_copyPlain {out : Output} {bits rest : List Bool} {n : Nat}
    (h : (copyPlain out bits n).2 = .ok rest) : rest.length ≤ bits.length := by
  induction n generalizing out bits with
  | zero => cases h; exact Nat.le_refl _
  | succ n ih =>
    unfold copyPlain at h
    split at h
    · cases h
    rename_i h1
    have := length_of_number h1
    have := ih h
    omega

/-- The size of a plain block: it starts at a byte boundary and is given twice, the second time
with every bit turned over. -/
def plainSize (bits : List Bool) : Except Stop (Nat × List Bool) := do
  let (size, rest) ← number 16 (bits.drop (bits.length % 8))
  let (check, rest) ← number 16 rest
  if size + check = 0xFFFF then return (size, rest) else .error (.invalid rest)

theorem length_of_plainSize {bits rest : List Bool} {n : Nat}
    (h : plainSize bits = .ok (n, rest)) : rest.length ≤ bits.length := by
  obtain ⟨_, h1, h⟩ := eq_ok_of_bind h
  obtain ⟨_, h2, h⟩ := eq_ok_of_bind h
  dsimp only at h
  split at h
  · cases h
    have := length_of_number h1
    have := length_of_number h2
    simp only [List.length_drop] at *
    omega
  · cases h

/-- The contents of a block of this kind. -/
def contents (kind : Nat) (out : Output) (bits : List Bool) : Progress :=
  match kind with
  | 0 =>
    match plainSize bits with
    | .error s => (out, .error s)
    | .ok (size, rest) => copyPlain out rest size
  | 1 => expand standardCodes out bits
  | 2 =>
    match describedCodes bits with
    | .error s => (out, .error s)
    | .ok (codes, rest) => expand codes out rest
  | _ => (out, .error (.invalid bits))

theorem length_of_contents {kind : Nat} {out : Output} {bits rest : List Bool}
    (h : (contents kind out bits).2 = .ok rest) : rest.length ≤ bits.length := by
  unfold contents at h
  split at h
  · split at h
    · cases h
    · rename_i h1
      exact Nat.le_trans (length_of_copyPlain h) (length_of_plainSize h1)
  · exact length_of_expand h
  · split at h
    · cases h
    · rename_i h1
      exact Nat.le_trans (length_of_expand h) (length_of_describedCodes h1)
  · cases h

/-- Expands blocks up to the marked one: the output, and how the data broke off if it did. -/
def blocks (out : Output) (bits : List Bool) : Output × Option Stop :=
  match h1 : number 3 bits with
  | .error s => (out, some s)
  | .ok (header, rest) =>
    match h2 : contents (header / 2) out rest with
    | (out', .error s) => (out', some s)
    | (out', .ok rest') =>
      have := length_of_number h1
      have := length_of_contents (congrArg Prod.snd h2)
      if header % 2 = 1 then (out', none) else blocks out' rest'
termination_by bits.length

/-! ## Chunks -/

/-- The size of the chunks in which output is handed on, and of the portions in which data is
taken in. -/
def chunkSize : Nat := 0x4000

/-- The bytes of the full chunks among so many. -/
def fullChunks (size : Nat) : Nat := size / chunkSize * chunkSize

/-- The number of portions that so many bits touch. -/
def portions (bits : Nat) : Nat := (bits + (8 * chunkSize - 1)) / (8 * chunkSize)

/-- How much of the output is handed on.  A chunk that is full waits until there is more to write,
or until the next portion of data is taken in; if the data turns out to mean nothing before that,
the chunk is lost. -/
def handedOn (total : Nat) (out : Output) : Option Stop → Nat
  | none => out.bytes.size
  | some .exhausted | some .unavailable => fullChunks out.bytes.size
  | some (.invalid left) =>
    if portions (total - out.left.length) < portions (total - left.length) then
      fullChunks out.bytes.size
    else fullChunks (out.bytes.size - 1)

/-- **Expanding deflated data**: all of its output, or the chunks of a broken stream that were
handed on. -/
def inflate (data : List UInt8) : List UInt8 :=
  let bits := ofBytes data
  let (out, ending) := blocks ⟨#[], bits⟩ bits
  out.bytes.toList.take (handedOn bits.length out ending)

end ChipEight.Deflate
