import EuiccCrypto.Exec
import Mathlib.Data.List.DropRight

/-!
# PEM files

The PEM and base64 decoders of `sgp26.rs`. Text is a list of characters. Neither decoder panics
(`pemToDer_ne_panic`).
-/

namespace EuiccCrypto
namespace Pem

open Octets

/-! ### Strings -/

/-- What the standard library writes into error texts: strings and characters in their `Debug`
form, and the message for octets that are not UTF-8. -/
structure Fmt where
  debugStr : String → String
  debugChar : Char → String
  utf8Error : Bytes → String

/-- `str::from_utf8`. -/
def fromUtf8 (bytes : Bytes) : Option (List Char) :=
  (String.fromUTF8? ⟨bytes.toArray⟩).map String.toList

/-- `char::is_whitespace`. -/
def isWhitespace (c : Char) : Bool :=
  let n := c.toNat
  (0x09 ≤ n && n ≤ 0x0d) || n == 0x20 || n == 0x85 || n == 0xa0 || n == 0x1680 ||
    (0x2000 ≤ n && n ≤ 0x200a) || n == 0x2028 || n == 0x2029 || n == 0x202f || n == 0x205f ||
    n == 0x3000

/-- `str::trim`. -/
def trim (s : List Char) : List Char := (s.dropWhile isWhitespace).rdropWhile isWhitespace

/-- `str::strip_prefix`. -/
def stripPrefix (pre : String) (s : List Char) : Option (List Char) :=
  if pre.toList.isPrefixOf s then some (s.drop pre.toList.length) else none

/-- The lines of what has been read of a line and what is left of the text. -/
def linesFrom : List Char → List Char → List (List Char)
  | line, [] => if line.isEmpty then [] else [line]
  | line, c :: rest =>
    if c = '\n' then
      (if line.getLast? = some '\r' then line.dropLast else line) :: linesFrom [] rest
    else linesFrom (line ++ [c]) rest

/-- `str::lines`. -/
def lines (text : List Char) : List (List Char) := linesFrom [] text

/-! ### Base64 -/

/-- `val`: the value of a digit. -/
def base64Val (c : UInt8) : Option UInt8 :=
  if 'A'.toUInt8 ≤ c ∧ c ≤ 'Z'.toUInt8 then some (c - 'A'.toUInt8)
  else if 'a'.toUInt8 ≤ c ∧ c ≤ 'z'.toUInt8 then some (c - 'a'.toUInt8 + 26)
  else if '0'.toUInt8 ≤ c ∧ c ≤ '9'.toUInt8 then some (c - '0'.toUInt8 + 52)
  else if c = '+'.toUInt8 then some 62
  else if c = '/'.toUInt8 then some 63
  else none

/-- `u8::is_ascii_whitespace`. -/
def isAsciiWhitespace (b : UInt8) : Bool :=
  b == 0x20 || b == 0x09 || b == 0x0a || b == 0x0c || b == 0x0d

section Decode

variable (fmt : Fmt)

/-- The value of one character of a chunk; padding counts as zero. -/
def base64Digit (c : UInt8) : Exec UInt32 :=
  if c = '='.toUInt8 then .ok 0
  else do
    let v ← Exec.okOr
      (.certificate ("base64: bad character " ++ fmt.debugChar (Char.ofNat c.toNat))) (base64Val c)
    .ok v.toUInt32

/-- The octets of one chunk of four characters. -/
def base64Chunk (c0 c1 c2 c3 : UInt8) : Exec Bytes := do
  let pad := [c0, c1, c2, c3].count '='.toUInt8
  let v0 ← base64Digit fmt c0
  let v1 ← base64Digit fmt c1
  let v2 ← base64Digit fmt c2
  let v3 ← base64Digit fmt c3
  let acc := v0 <<< 18 ||| v1 <<< 12 ||| v2 <<< 6 ||| v3
  .ok ((acc >>> 16).toUInt8 :: ((if pad < 2 then [(acc >>> 8).toUInt8] else []) ++
    if pad < 1 then [acc.toUInt8] else []))

/-- The loop over the chunks. -/
def base64Chunks : Bytes → Exec Bytes
  | c0 :: c1 :: c2 :: c3 :: rest => do
    let out ← base64Chunk fmt c0 c1 c2 c3
    let more ← base64Chunks rest
    .ok (out ++ more)
  | _ => .ok []

/-- `base64_decode`: standard alphabet with padding. -/
def base64Decode (s : List Char) : Exec Bytes :=
  let bytes := (String.ofList s).toUTF8.toList.filter fun b => !isAsciiWhitespace b
  if bytes.length % 4 ≠ 0 then .err (.certificate "base64: length is not a multiple of 4")
  else base64Chunks fmt bytes

/-! ### Blocks -/

/-- Where the loop of `pem_block_to_der` is: the blocks so far, and the block that is open. -/
structure BlockState where
  blocks : List (List Char × List Char)
  label : Option (List Char)
  body : List Char

/-- The label in what follows `BEGIN` or `END`. -/
def blockLabel (rest : List Char) : List Char := trim (rest.rdropWhile (· == '-'))

/-- One line of `pem_block_to_der`. -/
def pemLine (s : BlockState) (line : List Char) : Exec BlockState :=
  let line := trim line
  match stripPrefix "-----BEGIN " line with
  | some rest => .ok { s with label := some (blockLabel rest), body := [] }
  | none =>
    match stripPrefix "-----END " line with
    | some rest =>
      let endLabel := blockLabel rest
      match s.label with
      | some start =>
        if start ≠ endLabel then
          .err (.certificate ("PEM block " ++ fmt.debugStr (String.ofList start) ++ " closed by " ++
            fmt.debugStr (String.ofList endLabel)))
        else .ok { blocks := s.blocks ++ [(start, s.body)], label := none, body := [] }
      -- An `END` without a `BEGIN` is passed over.
      | none => .ok s
    | none => .ok (if s.label.isSome then { s with body := s.body ++ line } else s)

/-- The block `pem_block_to_der` decodes. -/
def chooseBlock (blocks : List (List Char × List Char)) :
    Option String → Exec (List Char × List Char)
  | some w => Exec.okOr (.certificate ("no PEM block labelled " ++ fmt.debugStr w))
      (blocks.find? fun block => block.1 == w.toList)
  | none => Exec.okOr (.certificate "no PEM block found") blocks.getLast?

/-- `pem_block_to_der`: the body of the block labelled `want`, or of the last block. -/
def pemBlockToDer (pem : Bytes) (want : Option String) : Exec Bytes := do
  let text ← Exec.okOr (.certificate ("PEM is not UTF-8: " ++ fmt.utf8Error pem)) (fromUtf8 pem)
  let s ← (lines text).foldlM (pemLine fmt) { blocks := [], label := none, body := [] }
  let chosen ← chooseBlock fmt s.blocks want
  base64Decode fmt chosen.2

/-- `pem_to_der`: the body of the key block. -/
def pemToDer (pem : Bytes) : Exec Bytes := pemBlockToDer fmt pem none

/-! ### No decoder panics -/

variable {fmt}

theorem base64Digit_ne_panic (c : UInt8) : base64Digit fmt c ≠ .panic := by
  rw [base64Digit]
  split
  · simp
  · simp [Exec.bind_eq_panic]

theorem base64Chunks_ne_panic (bytes : Bytes) : base64Chunks fmt bytes ≠ .panic := by
  induction bytes using base64Chunks.induct with
  | case1 c0 c1 c2 c3 rest ih =>
      intro h
      simp only [base64Chunks, base64Chunk, Exec.bind_eq_panic, base64Digit_ne_panic, ih] at h
      simp at h
  | case2 bytes hshort =>
      rw [base64Chunks]
      · simp
      · exact hshort

theorem base64Decode_ne_panic (s : List Char) : base64Decode fmt s ≠ .panic := by
  simp only [base64Decode, ne_eq, Exec.ite_err_eq_panic, base64Chunks_ne_panic, and_false,
    not_false_eq_true]

theorem pemLine_ne_panic (s : BlockState) (line : List Char) : pemLine fmt s line ≠ .panic := by
  intro h
  simp only [pemLine] at h
  split at h
  · cases h
  · split at h
    · split at h
      · rw [Exec.ite_err_eq_panic] at h
        cases h.2
      · cases h
    · cases h

/-- A loop whose turns do not panic does not panic. -/
theorem foldlM_ne_panic {α σ : Type} {f : σ → α → Exec σ} (hf : ∀ s a, f s a ≠ .panic) :
    ∀ (l : List α) (s : σ), l.foldlM f s ≠ .panic
  | [], s => by simp
  | a :: l, s => by
      rw [List.foldlM_cons, ne_eq, Exec.bind_eq_panic, not_or, not_exists]
      exact ⟨hf s a, fun s' h => foldlM_ne_panic hf l s' h.2⟩

theorem pemToDer_ne_panic (pem : Bytes) : pemToDer fmt pem ≠ .panic := by
  intro h
  simp only [pemToDer, pemBlockToDer, chooseBlock, Exec.bind_eq_panic, Exec.okOr_ne_panic,
    foldlM_ne_panic pemLine_ne_panic, base64Decode_ne_panic, and_false, exists_false, or_false] at h

end Decode

end Pem
end EuiccCrypto
