import ModuleAudit.Bytes
import ModuleAudit.ClassFile.Event
import ModuleAudit.ClassFile.Failure

/-! # Scanning bytes

A `Scan α` reads from the front of a byte string, reports events on the way, and ends with a value and
the bytes it did not read, or with a failure. The events before a failure are kept.
-/

namespace ModuleAudit.ClassFile
set_option autoImplicit false

/-- What scanning gave: the events reported, then a value with the unread bytes, or a failure. -/
structure Outcome (α : Type) where
  events : List Event
  result : Except Failure (α × Bytes)

/-- A reader of bytes that reports events. -/
def Scan (α : Type) := Bytes → Outcome α

namespace Scan

variable {α β : Type}

instance : Monad Scan where
  pure a := fun bytes => ⟨[], .ok (a, bytes)⟩
  bind scan next := fun bytes =>
    match scan bytes with
    | ⟨events, .ok (a, rest)⟩ => let after := next a rest; ⟨events ++ after.events, after.result⟩
    | ⟨events, .error failure⟩ => ⟨events, .error failure⟩

instance : Inhabited (Scan α) := ⟨fun _ => ⟨[], .error .unexpectedEnd⟩⟩

@[simp] theorem pure_apply (a : α) (bytes : Bytes) : (pure a : Scan α) bytes = ⟨[], .ok (a, bytes)⟩ := rfl

theorem bind_apply (scan : Scan α) (next : α → Scan β) (bytes : Bytes) :
    (scan >>= next) bytes =
      match scan bytes with
      | ⟨events, .ok (a, rest)⟩ => ⟨events ++ (next a rest).events, (next a rest).result⟩
      | ⟨events, .error failure⟩ => ⟨events, .error failure⟩ := rfl

def fail (failure : Failure) : Scan α := fun _ => ⟨[], .error failure⟩

/-- Goes on with an answer that does not depend on the bytes. -/
def answer (value : Except Failure α) : Scan α := fun bytes => ⟨[], value.map (·, bytes)⟩

def report (event : Event) : Scan Unit := fun bytes => ⟨[event], .ok ((), bytes)⟩

def unread : Scan Nat := fun bytes => ⟨[], .ok (bytes.length, bytes)⟩

def take (n : Nat) : Scan Bytes := fun bytes =>
  let front := bytes.take n
  if front.length = n then ⟨[], .ok (front, bytes.drop n)⟩ else ⟨[], .error .unexpectedEnd⟩

def skip (n : Nat) : Scan Unit := do
  let _ ← take n

/-- The next `n` bytes as a number, the most significant byte first. -/
def number (n : Nat) : Scan Nat := do
  return (← take n).bigEndian

def u1 : Scan Nat := number 1

def u2 : Scan Nat := number 2

def u4 : Scan Nat := number 4

/-- Four bytes as a signed number. -/
def i4 : Scan Int := do
  let n ← u4
  return if n < 0x80000000 then (n : Int) else (n : Int) - 0x100000000

def times : Nat → Scan Unit → Scan Unit
  | 0, _ => pure ()
  | n + 1, scan => do
    scan
    times n scan

/-- Scans `n` times and keeps the values. -/
def collect : Nat → Scan α → Scan (List α)
  | 0, _ => pure []
  | n + 1, scan => do
    let a ← scan
    let as ← collect n scan
    return a :: as

/-- Scans the bytes `body` instead of the input, and lets what stays unread of them go. -/
def within (body : Bytes) (scan : Scan Unit) : Scan Unit := fun bytes =>
  let inner := scan body
  ⟨inner.events, inner.result.map fun _ => ((), bytes)⟩

/-- Scans with a bound on the number of unread bytes. -/
def bounded (scan : Nat → Scan α) : Scan α := fun bytes => scan bytes.length bytes

end Scan

end ModuleAudit.ClassFile
