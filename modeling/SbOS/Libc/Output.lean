import SbOS.Lib.Program

/-! The output buffer of a stream of the user library. `write_fd` collects up to 4096
bytes and `fflush_fd` hands them to the kernel. What the kernel does not accept is dropped,
and a call with more than 4096 bytes overtakes those in the buffer. -/
namespace SbOS.Libc
open Program

/-- What `FILE` holds of the output, and the bytes that have reached the descriptor. -/
structure Stream where
  writeBuffer : List UInt8 := []
  hasError : Bool := false
  sent : List UInt8 := []

/-- `raw_write_fd`, where `write` returns `accepted` or fails. -/
def Stream.rawWriteFd (f : Stream) (s : List UInt8) : (accepted : Option Nat) → Nat × Stream
  | none => (0, { f with hasError := true })
  | some rc => (rc, { f with sent := f.sent ++ s.take rc })

def Stream.fflushFd (f : Stream) (accepted : Option Nat) : Stream :=
  { (f.rawWriteFd f.writeBuffer accepted).2 with writeBuffer := [] }

def Stream.writeFd (f : Stream) (s : List UInt8) (accepted : Option Nat) : Nat × Stream :=
  if s.length > 4096 then f.rawWriteFd s accepted
  else
    let f := if f.writeBuffer.length + s.length > 4096 then f.fflushFd accepted else f
    (s.length, { f with writeBuffer := f.writeBuffer ++ s })

/-- A call makes at most one `write`, and is given what that returns. -/
inductive Call where
  | write (s : List UInt8) (accepted : Option Nat)
  | flush (accepted : Option Nat)

/-- A call, with the bytes that it reports as written. -/
def Call.step (call : Call) (f : Stream) : List UInt8 × Stream :=
  match call with
  | .write s accepted =>
    let (rc, f) := f.writeFd s accepted
    (s.take rc, f)
  | .flush accepted => ([], f.fflushFd accepted)

/-- What a new stream sends is what its calls report. -/
def Delivered (calls : List Call) : Prop :=
  let (reported, f) := stepAll Call.step calls {}
  f.sent = reported.flatten

/-- A flush is accepted whole, and a call that passes by the buffer finds it empty. -/
def Call.Smooth (call : Call) (f : Stream) : Prop :=
  match call with
  | .write s accepted =>
    if s.length > 4096 then f.writeBuffer = []
    else f.writeBuffer.length + s.length > 4096 → accepted = some f.writeBuffer.length
  | .flush accepted => accepted = some f.writeBuffer.length

theorem fflushFd_whole (f : Stream) : f.fflushFd (some f.writeBuffer.length) =
    { f with writeBuffer := [], sent := f.sent ++ f.writeBuffer } := by
  simp [Stream.fflushFd, Stream.rawWriteFd]

/-- A smooth call adds what it reports to the bytes sent and stored. -/
theorem Call.Smooth.step {call : Call} (smooth : call.Smooth f) :
    (call.step f).2.sent ++ (call.step f).2.writeBuffer =
      f.sent ++ f.writeBuffer ++ (call.step f).1 := by
  cases call with
  | flush accepted =>
    obtain rfl : accepted = _ := smooth
    simp [Call.step, fflushFd_whole]
  | write s accepted =>
    simp only [Call.Smooth] at smooth
    simp only [Call.step, Stream.writeFd]
    split at smooth
    · next long =>
      rw [if_pos long]
      cases accepted with
      | none => simp [Stream.rawWriteFd, smooth]
      | some rc => simp [Stream.rawWriteFd, smooth]
    · next short =>
      rw [if_neg short]
      by_cases full : f.writeBuffer.length + s.length > 4096
      · rw [smooth full, if_pos full, fflushFd_whole]
        simp
      · rw [if_neg full]
        simp

/-- The buffer index stays within the buffer, whatever the kernel accepts. -/
theorem Call.step_stored (call : Call) (inside : f.writeBuffer.length ≤ 4096) :
    (call.step f).2.writeBuffer.length ≤ 4096 := by
  cases call with
  | flush accepted => exact Nat.zero_le 4096
  | write s accepted =>
    simp only [Call.step, Stream.writeFd]
    by_cases long : s.length > 4096
    · rw [if_pos long]
      cases accepted with
      | none => exact inside
      | some rc => exact inside
    · rw [if_neg long]
      by_cases full : f.writeBuffer.length + s.length > 4096
      · rw [if_pos full]
        exact Nat.le_of_not_lt long
      · rw [if_neg full, List.length_append]
        exact Nat.le_of_not_lt full

theorem run_stored (calls : List Call) (inside : f.writeBuffer.length ≤ 4096) :
    (stepAll Call.step calls f).2.writeBuffer.length ≤ 4096 := by
  induction calls generalizing f with
  | nil => exact inside
  | cons call calls ih => exact ih (call.step_stored inside)

theorem run_flushed (smooth : ValidAll Call.step Call.Smooth (calls ++ [.flush accepted]) f) :
    (stepAll Call.step (calls ++ [.flush accepted]) f).2.sent = f.sent ++ f.writeBuffer ++
      (stepAll Call.step (calls ++ [.flush accepted]) f).1.flatten := by
  induction calls generalizing f with
  | nil =>
    have kept := smooth.1.step
    change (f.fflushFd accepted).sent ++ [] = _ at kept
    rw [List.append_nil] at kept
    exact kept
  | cons call calls ih =>
    have rest := ih smooth.2
    rw [smooth.1.step] at rest
    change (stepAll Call.step (calls ++ [.flush accepted]) (call.step f).2).2.sent = _
    rw [rest, List.append_assoc]
    rfl

/-- Runs of smooth calls that end with a flush send all that they report, in order. -/
theorem output_delivered (smooth : ValidAll Call.step Call.Smooth (calls ++ [.flush accepted]) {}) :
    Delivered (calls ++ [.flush accepted]) ∧
      ∀ first, first <+: calls ++ [.flush accepted] →
        (stepAll Call.step first {}).2.writeBuffer.length ≤ 4096 :=
  ⟨run_flushed smooth, fun first _ => run_stored first (Nat.zero_le 4096)⟩

def parts : List Call :=
  [.write [65] (some 1), .write [66, 67] (some 2), .flush (some 3), .write [68] (some 1)]

theorem output_delivered_in_parts : Delivered (parts ++ [.flush (some 1)]) := by
  have smooth : ValidAll Call.step Call.Smooth (parts ++ [.flush (some 1)]) {} :=
    ⟨fun big => absurd big (by decide), fun big => absurd big (by decide), rfl,
      fun big => absurd big (by decide), rfl, trivial⟩
  exact (output_delivered smooth).1

/-- Of two bytes the kernel accepts one; the other is gone. -/
theorem short_write_is_lost : ¬Delivered [.write [65, 66] (some 2), .flush (some 1)] := by
  unfold Delivered
  decide

end SbOS.Libc
