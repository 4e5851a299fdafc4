import EuiccCrypto.Pem.Blocks

/-!
# From octets to lines

What `from_utf8`, `lines` and `trim` make of a text that was written line by line: the octets are
read as the text they encode (`fromUtf8_utf8`), the text as the lines it was put together from
(`foldlM_readLines`), and a line as what it was before whitespace was put around it
(`readLine_around`).
-/

namespace EuiccCrypto
namespace Pem

open Octets Base64

/-! ### UTF-8 -/

/-- The octets of a text. -/
def utf8 (text : List Char) : Bytes := (String.ofList text).toUTF8.toList

theorem toList_loop_eq (b : ByteArray) (i : Nat) (acc : Bytes) :
    ByteArray.toList.loop b i acc = acc.reverse ++ b.data.toList.drop i := by
  fun_induction ByteArray.toList.loop b i acc with
  | case1 i acc h ih =>
      have hi : i < b.data.toList.length := by simpa using h
      rw [ih, List.drop_eq_getElem_cons hi]
      simp [ByteArray.get!, getElem!_pos b.data i (by simpa using h)]
  | case2 i acc h =>
      have hi : b.data.toList.length ≤ i := by simpa using Nat.le_of_not_lt h
      rw [List.drop_eq_nil_of_le hi, List.append_nil]

theorem toList_eq (b : ByteArray) : b.toList = b.data.toList := by
  rw [ByteArray.toList, toList_loop_eq]
  rfl

theorem fromUtf8_utf8 (text : List Char) : fromUtf8 (utf8 text) = some text := by
  have hvalid := (String.ofList text).isValidUTF8
  rw [← String.toUTF8_eq_toByteArray] at hvalid
  rw [fromUtf8, utf8, toList_eq, Array.toArray_toList, String.fromUTF8?, dif_pos hvalid,
    Option.map_some]
  exact congrArg some String.toList_ofList

/-- An ASCII text has one octet for each character. -/
theorem utf8_ascii {text : List Char} (h : ∀ c ∈ text, c.toNat < 128) :
    utf8 text = text.map Char.toUInt8 := by
  rw [utf8, String.toUTF8_eq_toByteArray, String.toByteArray_ofList, List.utf8Encode, toList_eq,
    List.toList_data_toByteArray]
  induction text with
  | nil => rfl
  | cons c text ih =>
      have hsize : c.utf8Size = 1 := by
        rw [Char.utf8Size_eq_one_iff, UInt32.le_iff_toNat_le]
        exact Nat.le_of_lt_succ (h c List.mem_cons_self)
      rw [List.flatMap_cons, String.utf8EncodeChar_eq_singleton hsize,
        ih fun d hd => h d (List.mem_cons_of_mem c hd)]
      rfl

/-! ### Lines -/

/-- The line without a `\r` at its end. -/
def stripCr (line : List Char) : List Char :=
  if line.getLast? = some '\r' then line.dropLast else line

theorem linesFrom_append {line : List Char} (h : '\n' ∉ line) (front rest : List Char) :
    linesFrom front (line ++ '\n' :: rest) = stripCr (front ++ line) :: linesFrom [] rest := by
  induction line generalizing front with
  | nil => simp [linesFrom, stripCr]
  | cons c line ih =>
      rw [List.mem_cons, not_or] at h
      rw [List.cons_append, linesFrom, if_neg (Ne.symm h.1), ih h.2, List.append_assoc]
      rfl

theorem linesFrom_last {line : List Char} (h : '\n' ∉ line) (front : List Char) :
    linesFrom front line = if (front ++ line).isEmpty then [] else [front ++ line] := by
  induction line generalizing front with
  | nil => simp [linesFrom]
  | cons c line ih =>
      rw [List.mem_cons, not_or] at h
      rw [linesFrom, if_neg (Ne.symm h.1), ih h.2, List.append_assoc]
      rfl

/-! ### Whitespace -/

theorem rdropWhile_append {α : Type} {p : α → Bool} {l r : List α} (h : ∀ a ∈ r, p a) :
    (l ++ r).rdropWhile p = l.rdropWhile p := by
  induction r using List.reverseRecOn with
  | nil => rw [List.append_nil]
  | append_singleton r a ih =>
      rw [← List.append_assoc, List.rdropWhile_concat_pos _ _ _ (h a (by simp))]
      exact ih fun b hb => h b (by simp [hb])

theorem dropWhile_eq_nil {α : Type} {p : α → Bool} {l : List α} (h : ∀ a ∈ l, p a) :
    l.dropWhile p = [] := List.dropWhile_eq_nil_iff.mpr h

/-- Trimming takes away whitespace around a text. -/
theorem trim_around {lead trail : List Char} (hlead : ∀ c ∈ lead, isWhitespace c)
    (htrail : ∀ c ∈ trail, isWhitespace c) (s : List Char) :
    trim (lead ++ s ++ trail) = trim s := by
  rw [trim, List.append_assoc, List.dropWhile_append, dropWhile_eq_nil hlead,
    if_pos List.isEmpty_nil, List.dropWhile_append, dropWhile_eq_nil htrail, trim]
  split
  · next h => rw [List.isEmpty_iff.mp h]
  · exact rdropWhile_append htrail

/-- A text that neither starts nor ends with whitespace. -/
theorem trim_eq_self {s : List Char} (hhead : ∀ c ∈ s.head?, ¬ isWhitespace c)
    (hlast : ∀ c ∈ s.getLast?, ¬ isWhitespace c) : trim s = s := by
  have hdrop : s.dropWhile isWhitespace = s := by
    cases s with
    | nil => rfl
    | cons c s => exact List.dropWhile_cons_of_neg (hhead c rfl)
  rw [trim, hdrop, List.rdropWhile_eq_self_iff]
  exact fun hne => hlast _ (List.getLast?_eq_some_getLast hne)

theorem trim_stripCr (line : List Char) : trim (stripCr line) = trim line := by
  rw [stripCr]
  split
  · next h =>
      obtain ⟨front, rfl⟩ := List.getLast?_eq_some_iff.mp h
      rw [List.dropLast_concat]
      have hcr : ∀ c ∈ ['\r'], isWhitespace c := List.forall_mem_singleton.mpr (by decide)
      exact (trim_around (List.forall_mem_nil _) hcr front).symm
  · rfl

/-! ### Lines that have been read -/

theorem readLine_congr {line line' : List Char} (h : trim line = trim line') :
    readLine line = readLine line' := by
  rw [readLine, readLine, h]

theorem readLine_opening {line rest : List Char}
    (h : stripPrefix "-----BEGIN " (trim line) = some rest) :
    readLine line = .opening (blockLabel rest) := by
  rw [readLine, h]

theorem readLine_closing {line rest : List Char}
    (hopening : stripPrefix "-----BEGIN " (trim line) = none)
    (hclosing : stripPrefix "-----END " (trim line) = some rest) :
    readLine line = .closing (blockLabel rest) := by
  rw [readLine, hopening, hclosing]

theorem readLine_text {line : List Char}
    (hopening : stripPrefix "-----BEGIN " (trim line) = none)
    (hclosing : stripPrefix "-----END " (trim line) = none) :
    readLine line = .text (trim line) := by
  rw [readLine, hopening, hclosing]

theorem stripPrefix_append (pre : String) (rest : List Char) :
    stripPrefix pre (pre.toList ++ rest) = some rest := by
  rw [stripPrefix, if_pos (List.isPrefixOf_iff_prefix.mpr (List.prefix_append _ _)), List.drop_left]

variable {fmt : Fmt}

/-- An empty line changes nothing. -/
theorem stepLine_readLine_nil (s : BlockState) : stepLine fmt s (readLine []) = .ok s := by
  show Exec.ok (if s.label.isSome then { s with body := s.body ++ [] } else s) = _
  simp

/-- The text with the given lines. -/
def joinLines (ls : List (List Char)) : List Char := List.intercalate ['\n'] ls

/-- The loop sees the lines that a text was put together from, whatever their ends. -/
theorem foldlM_readLines {ls : List (List Char)} (h : ∀ line ∈ ls, '\n' ∉ line) (s : BlockState) :
    (readLines (joinLines ls)).foldlM (stepLine fmt) s =
      (ls.map readLine).foldlM (stepLine fmt) s := by
  rw [readLines, lines]
  induction ls generalizing s with
  | nil => rfl
  | cons line ls ih =>
      rw [List.forall_mem_cons] at h
      cases ls with
      | nil =>
          rw [joinLines, List.intercalate_singleton, linesFrom_last h.1, List.nil_append]
          split
          · next hempty =>
              rw [List.isEmpty_iff.mp hempty]
              simp [stepLine_readLine_nil]
          · rfl
      | cons next ls =>
          have hjoin : joinLines (line :: next :: ls) = line ++ '\n' :: joinLines (next :: ls) := by
            simp [joinLines, List.intercalate_cons_cons]
          rw [hjoin, linesFrom_append h.1, List.nil_append, List.map_cons, List.map_cons,
            List.foldlM_cons, List.foldlM_cons, readLine_congr (trim_stripCr line)]
          congr 1
          funext s'
          exact ih h.2 s'

end Pem
end EuiccCrypto
