/-
# `Base.Tcp` — the writing side of a connection

A connection takes bytes until it breaks, at a byte nobody knows in advance:
`room` is that byte's distance, and `none` when the connection never breaks.
The write that reaches it fails, having delivered a part of its bytes
perhaps (`broken_writeAll`), and so does every write after it
(`writeAll_of_broken`).  On a connection that is not broken, what was written
is what was delivered (`written_writeAll`).
-/
import Mathlib

namespace Base

structure TcpStream where
  written : List UInt8
  room : Option Nat
  broken : Bool
  deriving DecidableEq

namespace TcpStream

/-- A connection that has just been opened. -/
def opened (room : Option Nat) : TcpStream where
  written := []
  room := room
  broken := false

/-- Write all the bytes, or fail. -/
def writeAll (s : TcpStream) (bytes : List UInt8) : TcpStream × Bool :=
  if s.broken then (s, false)
  else
    match s.room with
    | none => ({ s with written := s.written ++ bytes }, true)
    | some n =>
        if bytes.length ≤ n then
          ({ s with written := s.written ++ bytes, room := some (n - bytes.length) }, true)
        else ({ s with written := s.written ++ bytes.take n, broken := true }, false)

theorem writeAll_of_broken {s : TcpStream} (h : s.broken = true) (bytes : List UInt8) :
    s.writeAll bytes = (s, false) := by
  rw [writeAll, if_pos h]

/-- A write delivers all the bytes, or breaks the connection behind a part of
them. -/
theorem writeAll_cases (s : TcpStream) (bytes : List UInt8) :
    (∃ room, s.broken = false ∧
      s.writeAll bytes = ({ written := s.written ++ bytes, room, broken := false }, true)) ∨
    ∃ sent room, sent <+: bytes ∧
      s.writeAll bytes = ({ written := s.written ++ sent, room, broken := true }, false) := by
  cases hb : s.broken with
  | true =>
      refine .inr ⟨[], s.room, List.nil_prefix, ?_⟩
      rw [writeAll_of_broken hb, List.append_nil, ← hb]
  | false =>
      cases hr : s.room with
      | none => exact .inl ⟨none, rfl, by simp [writeAll, hb, hr]⟩
      | some n =>
          by_cases hn : bytes.length ≤ n
          · exact .inl ⟨some (n - bytes.length), rfl, by simp [writeAll, hb, hr, hn]⟩
          · exact .inr ⟨bytes.take n, some n, List.take_prefix _ _, by simp [writeAll, hb, hr, hn]⟩

/-- A connection that is not broken after a write was not broken before, and
has delivered all the bytes. -/
theorem written_writeAll {s : TcpStream} {bytes : List UInt8}
    (h : (s.writeAll bytes).1.broken = false) :
    s.broken = false ∧ (s.writeAll bytes).1.written = s.written ++ bytes := by
  rcases s.writeAll_cases bytes with ⟨room, hb, heq⟩ | ⟨sent, room, -, heq⟩
  · exact ⟨hb, by rw [heq]⟩
  · rw [heq] at h
    cases h

/-- Nothing but the bytes is delivered, and in their order. -/
theorem prefix_writeAll (s : TcpStream) (bytes : List UInt8) :
    (s.writeAll bytes).1.written <+: s.written ++ bytes := by
  rcases s.writeAll_cases bytes with ⟨room, -, heq⟩ | ⟨sent, room, hsent, heq⟩
  · rw [heq]
  · rw [heq]
    exact (List.prefix_append_right_inj _).mpr hsent

/-- A write that fails leaves the connection broken. -/
theorem broken_writeAll {s : TcpStream} {bytes : List UInt8} (h : (s.writeAll bytes).2 = false) :
    (s.writeAll bytes).1.broken = true := by
  rcases s.writeAll_cases bytes with ⟨room, -, heq⟩ | ⟨sent, room, -, heq⟩
  · rw [heq] at h
    cases h
  · rw [heq]

/-- A write that succeeds has delivered all the bytes. -/
theorem written_of_writeAll {s : TcpStream} {bytes : List UInt8}
    (h : (s.writeAll bytes).2 = true) :
    (s.writeAll bytes).1.written = s.written ++ bytes := by
  rcases s.writeAll_cases bytes with ⟨room, -, heq⟩ | ⟨sent, room, -, heq⟩
  · rw [heq]
  · rw [heq] at h
    cases h

end TcpStream
end Base
