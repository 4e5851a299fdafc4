import EuiccCrypto.Bsp
import EuiccCrypto.Lib.Runs

/-!
# Failed calls leave no trace

Any of the four BSP calls, with any keys and any arguments, in any order on one chaining buffer.
`failed_calls_leave_no_trace`: no call panics, a call that returns an `Err` leaves the buffer as it
was, and a run goes as if its failing calls had not been made.
-/

namespace EuiccCrypto
namespace Bsp

open Octets

/-- A call of one of the four functions, with everything but the chaining value. -/
inductive Call
  | wrapEncrypt (keys : BspSessionKeys) (tag : UInt32) (plaintext : Bytes) (blockNumber : UInt32)
  | wrapMacOnly (keys : BspSessionKeys) (tag : UInt32) (plaintext : Bytes)
  | unwrapEncrypt (keys : BspSessionKeys) (tlv : ProtectedTlv) (blockNumber : UInt32)
  | unwrapMacOnly (keys : BspSessionKeys) (tlv : ProtectedTlv)

/-- What a call returns. -/
inductive Reply
  | wrapped (tlv : ProtectedTlv)
  | unwrapped (plaintext : Bytes)
  deriving DecidableEq

variable (C : Ciphers)

def Call.perform : Call → Chained Reply
  | .wrapEncrypt keys tag plaintext blockNumber => do
      let tlv ← Bsp.wrapEncrypt C keys tag plaintext blockNumber
      pure (.wrapped tlv)
  | .wrapMacOnly keys tag plaintext => do
      let tlv ← Bsp.wrapMacOnly C keys tag plaintext
      pure (.wrapped tlv)
  | .unwrapEncrypt keys tlv blockNumber => do
      let plaintext ← Bsp.unwrapEncrypt C keys tlv blockNumber
      pure (.unwrapped plaintext)
  | .unwrapMacOnly keys tlv => do
      let plaintext ← Bsp.unwrapMacOnly C keys tlv
      pure (.unwrapped plaintext)

variable {C}

theorem Chained.Atomic.map {α β : Type} {x : Chained α} (h : x.Atomic) (f : α → β) :
    Chained.Atomic (do let a ← x; pure (f a)) := by
  intro buf
  rcases h buf with ⟨a, buf', ha⟩ | ⟨e, he⟩
  · exact .inl ⟨f a, buf', by rw [bind_ok ha, pure_apply]⟩
  · exact .inr ⟨e, bind_err he _⟩

theorem Call.perform_atomic (call : Call) : (call.perform C).Atomic := by
  cases call with
  | wrapEncrypt => exact (wrapEncrypt_atomic _ _ _).map _
  | wrapMacOnly => exact (wrapMacOnly_atomic _ _).map _
  | unwrapEncrypt => exact (unwrapEncrypt_atomic _ _).map _
  | unwrapMacOnly => exact (unwrapMacOnly_atomic _).map _

theorem Call.perform_ne_panic (call : Call) (buf : Bytes) : (call.perform C buf).1 ≠ .panic := by
  rcases call.perform_atomic (C := C) buf with ⟨a, buf', h⟩ | ⟨e, h⟩ <;> simp [h]

theorem Call.perform_noTrace : Runs.NoTrace (Call.perform C) Exec.Failed := by
  intro call buf hfailed
  rcases call.perform_atomic (C := C) buf with ⟨a, buf', h⟩ | ⟨e, h⟩
  · rw [h] at hfailed
    obtain ⟨e, he⟩ := hfailed
    cases he
  · rw [h]

/-- **Failed calls leave no trace.** No call panics, and a call that returns an `Err` leaves the
buffer as it found it; so in every run, whatever calls it has, the successful ones return what
they return in the run without the failing ones, and both runs leave the same buffer. -/
theorem failed_calls_leave_no_trace (C : Ciphers) :
    (∀ (call : Call) (buf : Bytes), (call.perform C buf).1 ≠ .panic ∧
      ((call.perform C buf).1.Failed → (call.perform C buf).2 = buf)) ∧
    ∀ (calls : List Call) (buf : Bytes),
      (∀ outcome ∈ (Runs.run (Call.perform C) calls buf).1, outcome ≠ .panic) ∧
      Runs.run (Call.perform C) (Runs.succeeding (Call.perform C) Exec.Failed calls buf) buf =
        ((Runs.run (Call.perform C) calls buf).1.filter fun outcome => ¬ outcome.Failed,
          (Runs.run (Call.perform C) calls buf).2) := by
  refine ⟨fun call buf => ⟨call.perform_ne_panic buf, Call.perform_noTrace call buf⟩, ?_⟩
  intro calls buf
  exact ⟨Runs.forall_mem_run (Call.perform C) Call.perform_ne_panic calls buf,
    Runs.run_succeeding (Call.perform C) Exec.Failed Call.perform_noTrace calls buf⟩

end Bsp
end EuiccCrypto
