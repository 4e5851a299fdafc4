import EuiccCrypto.Lib.Octets

/-!
# Calls that return, fail or panic

The crate's functions return `Result<T>`, and some of them slice and index byte strings, which
panics out of bounds. `Exec α` keeps the three outcomes apart: `ok` and `err` are the two
sides of a `Result`, `panic` is a call that does not return. `index`, `slice` and `sliceFrom`
are the indexing expressions of the source; lengths and offsets are natural numbers, since on
a 64-bit target no sum of two of them overflows.
-/

namespace EuiccCrypto

open Octets

/-! ### Errors and their text -/

/-- Errors returned by this crate. -/
inductive Error
  | malformed (message : String)
  | verificationFailed
  | crypto (message : String)
  | certificate (message : String)
  | unsupported (message : String)
  deriving DecidableEq, Repr

/-- The `Display` text of an error. -/
def Error.display : Error → String
  | .malformed m => "malformed input: " ++ m
  | .verificationFailed => "signature verification failed"
  | .crypto m => "crypto failure: " ++ m
  | .certificate m => "certificate error: " ++ m
  | .unsupported m => "unsupported: " ++ m

/-- One lowercase hexadecimal digit. -/
def hexDigit (n : Nat) : Char := "0123456789abcdef".toList.getD n '0'

/-- `{b:02x}`. -/
def hex02 (b : UInt8) : String :=
  String.ofList [hexDigit (b.toNat / 16), hexDigit (b.toNat % 16)]

/-- `{b:#04x}`. -/
def hexPrefixed (b : UInt8) : String := "0x" ++ hex02 b

/-- `{w:#06x}` of a 16-bit value. -/
def hexPrefixed16 (w : UInt16) : String :=
  "0x" ++ hex02 (UInt8.ofNat (w.toNat / 256)) ++ hex02 (UInt8.ofNat w.toNat)

/-! ### Outcomes -/

/-- What a call ends in. -/
inductive Exec (α : Type)
  | ok (a : α)
  | err (e : Error)
  | panic
  deriving DecidableEq

namespace Exec

variable {α β : Type}

/-- The `?` operator: the first `Err` or panic is the outcome of the whole. -/
protected def bind : Exec α → (α → Exec β) → Exec β
  | ok a, f => f a
  | err e, _ => err e
  | panic, _ => panic

instance : Monad Exec where
  pure := ok
  bind := Exec.bind

/-- `map_err`. -/
def mapErr (f : Error → Error) : Exec α → Exec α
  | ok a => ok a
  | err e => err (f e)
  | panic => panic

/-- `Result::ok`: an `Err` becomes `None`, a panic still unwinds. -/
def toOption : Exec α → Exec (Option α)
  | ok a => ok (some a)
  | err _ => ok none
  | panic => panic

/-- `Result::ok` of a call that does not panic. -/
def ok? : Exec α → Option α
  | ok a => some a
  | _ => none

/-- `Option::ok_or_else`. -/
def okOr (e : Error) : Option α → Exec α
  | some a => ok a
  | none => err e

/-- The call returned an `Err`. -/
def Failed (x : Exec α) : Prop := ∃ e, x = err e

instance : DecidablePred (Failed : Exec α → Prop)
  | ok _ => isFalse fun h => nomatch h
  | err e => isTrue ⟨e, rfl⟩
  | panic => isFalse fun h => nomatch h

/-- A call that does not panic fails where it returns nothing. -/
theorem failed_iff {x : Exec α} (h : x ≠ panic) : x.Failed ↔ ¬ ∃ a, x = ok a := by
  cases x with
  | ok a => exact iff_of_false (fun ⟨_, he⟩ => by cases he) (fun hno => hno ⟨a, rfl⟩)
  | err e => exact iff_of_true ⟨e, rfl⟩ (fun ⟨_, ha⟩ => by cases ha)
  | panic => exact absurd rfl h

@[simp] theorem pure_eq (a : α) : (pure a : Exec α) = ok a := rfl

@[simp] theorem ok_bind (a : α) (f : α → Exec β) : (ok a >>= f) = f a := rfl

@[simp] theorem err_bind (e : Error) (f : α → Exec β) : (err e >>= f) = err e := rfl

@[simp] theorem panic_bind (f : α → Exec β) : (panic >>= f) = panic := rfl

@[simp] theorem mapErr_ok (f : Error → Error) (a : α) : mapErr f (ok a) = ok a := rfl

@[simp] theorem mapErr_err (f : Error → Error) (e : Error) :
    mapErr f (err e : Exec α) = err (f e) := rfl

@[simp] theorem mapErr_panic (f : Error → Error) : mapErr f (panic : Exec α) = panic := rfl

@[simp] theorem toOption_ok (a : α) : (ok a).toOption = ok (some a) := rfl

@[simp] theorem ok?_eq_some {x : Exec α} {a : α} : x.ok? = some a ↔ x = ok a := by
  cases x <;> simp [ok?]

@[simp] theorem okOr_some (e : Error) (a : α) : okOr e (some a) = ok a := rfl

@[simp] theorem okOr_none (e : Error) : okOr e (none : Option α) = err e := rfl

/-- A sequence of calls returns exactly when each of them does. -/
@[simp] theorem bind_eq_ok {x : Exec α} {f : α → Exec β} {b : β} :
    (x >>= f) = ok b ↔ ∃ a, x = ok a ∧ f a = ok b := by
  cases x <;> simp

/-- A sequence of calls panics when one of them does after the others before it returned. -/
theorem bind_eq_panic {x : Exec α} {f : α → Exec β} :
    (x >>= f) = panic ↔ x = panic ∨ ∃ a, x = ok a ∧ f a = panic := by
  cases x <;> simp

@[simp] theorem mapErr_eq_ok {f : Error → Error} {x : Exec α} {a : α} :
    mapErr f x = ok a ↔ x = ok a := by
  cases x <;> simp

@[simp] theorem mapErr_eq_panic {f : Error → Error} {x : Exec α} :
    mapErr f x = panic ↔ x = panic := by
  cases x <;> simp

@[simp] theorem okOr_eq_ok {e : Error} {o : Option α} {a : α} : okOr e o = ok a ↔ o = some a := by
  cases o <;> simp

@[simp] theorem okOr_ne_panic {e : Error} {o : Option α} : okOr e o ≠ panic := by
  cases o <;> simp

@[simp] theorem toOption_eq_panic {x : Exec α} : x.toOption = panic ↔ x = panic := by
  cases x <;> simp [toOption]

/-- A guard that returns early lets the call through exactly when it does not fire. -/
@[simp] theorem ite_err_eq_ok {c : Prop} [Decidable c] {e : Error} {x : Exec α} {a : α} :
    (if c then err e else x) = ok a ↔ ¬ c ∧ x = ok a := by
  by_cases h : c <;> simp [h]

@[simp] theorem ite_err_eq_panic {c : Prop} [Decidable c] {e : Error} {x : Exec α} :
    (if c then err e else x) = panic ↔ ¬ c ∧ x = panic := by
  by_cases h : c <;> simp [h]

end Exec

/-! ### Indexing -/

/-- `buf[i]`. -/
def index {α : Type} (buf : List α) (i : Nat) : Exec α :=
  match buf[i]? with
  | some b => .ok b
  | none => .panic

/-- `&buf[start..stop]`. -/
def slice (buf : Bytes) (start stop : Nat) : Exec Bytes :=
  if start ≤ stop ∧ stop ≤ buf.length then .ok ((buf.drop start).take (stop - start)) else .panic

/-- `&buf[start..]`. -/
def sliceFrom (buf : Bytes) (start : Nat) : Exec Bytes :=
  if start ≤ buf.length then .ok (buf.drop start) else .panic

@[simp] theorem index_eq_ok {α : Type} {buf : List α} {i : Nat} {b : α} :
    index buf i = .ok b ↔ buf[i]? = some b := by
  unfold index
  cases buf[i]? <;> simp

@[simp] theorem index_eq_panic {α : Type} {buf : List α} {i : Nat} :
    index buf i = .panic ↔ buf.length ≤ i := by
  unfold index
  cases h : buf[i]? with
  | none => simpa using h
  | some b => simpa using (List.getElem?_eq_some_iff.mp h).1

@[simp] theorem sliceFrom_eq_ok {buf r : Bytes} {start : Nat} :
    sliceFrom buf start = .ok r ↔ start ≤ buf.length ∧ buf.drop start = r := by
  unfold sliceFrom
  split <;> simp [*]

@[simp] theorem sliceFrom_eq_panic {buf : Bytes} {start : Nat} :
    sliceFrom buf start = .panic ↔ buf.length < start := by
  unfold sliceFrom
  split <;> simp <;> omega

@[simp] theorem slice_eq_panic {buf : Bytes} {start stop : Nat} :
    slice buf start stop = .panic ↔ ¬ (start ≤ stop ∧ stop ≤ buf.length) := by
  unfold slice
  split <;> simp [*]

@[simp] theorem slice_eq_ok {buf r : Bytes} {start stop : Nat} :
    slice buf start stop = .ok r ↔
      (start ≤ stop ∧ stop ≤ buf.length) ∧ (buf.drop start).take (stop - start) = r := by
  unfold slice
  split <;> simp [*]

/-- The slice between a prefix and a suffix of known lengths. -/
theorem slice_append (a b c : Bytes) :
    slice (a ++ b ++ c) a.length (a.length + b.length) = .ok b := by
  simp

/-- What follows a prefix of known length. -/
theorem sliceFrom_append (a b : Bytes) : sliceFrom (a ++ b) a.length = .ok b := by
  simp

end EuiccCrypto
