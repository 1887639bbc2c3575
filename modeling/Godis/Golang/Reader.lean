import Godis.Golang.Str

/-!
# Readers

Functions that take bytes from an `io.Reader`.  A reader is incremental when bytes that arrive
later do not change what it has already given.
-/

namespace Golang

inductive ReadResult (ε α : Type) where
  | done (value : α) (rest : Str)
  | failed (error : ε)
  | panicked
  deriving DecidableEq

/-- From the bytes at hand to a value and the bytes left. -/
def Reader (ε α : Type) : Type :=
  Str → ReadResult ε α

namespace Reader

variable {ε ε' α β : Type}

def fail (error : ε) : Reader ε α :=
  fun _ => .failed error

def mapError (change : ε → ε') (reader : Reader ε α) : Reader ε' α := fun input =>
  match reader input with
  | .done value rest => .done value rest
  | .failed error => .failed (change error)
  | .panicked => .panicked

instance : Monad (Reader ε) where
  pure value := fun input => .done value input
  bind reader next := fun input =>
    match reader input with
    | .done value rest => next value rest
    | .failed error => .failed error
    | .panicked => .panicked

variable {input rest : Str} {next : α → Reader ε β} {reader : Reader ε α} {value : α}

theorem bind_done (read : reader input = .done value rest) :
    (reader >>= next) input = next value rest := by
  change (match reader input with
    | .done value rest => next value rest
    | .failed error => .failed error
    | .panicked => .panicked) = _
  rw [read]

theorem bind_eq_done {value : β} (read : (reader >>= next) input = .done value rest) :
    ∃ first middle, reader input = .done first middle ∧ next first middle = .done value rest := by
  change (match reader input with
    | .done value rest => next value rest
    | .failed error => .failed error
    | .panicked => .panicked) = _ at read
  cases first : reader input with
  | done value middle =>
    rw [first] at read
    exact ⟨value, middle, rfl, read⟩
  | failed error | panicked =>
    rw [first] at read
    cases read

/-! ## `io.ReadFull` -/

inductive Short where
  | eof
  | unexpectedEof
  deriving DecidableEq

def readFull (size : Nat) : Reader Short Str := fun input =>
  if size ≤ input.length then .done (input.take size) (input.drop size)
  else .failed (if input.isEmpty then .eof else .unexpectedEof)

theorem readFull_append {bytes : Str} :
    readFull bytes.length (bytes ++ rest) = .done bytes rest := by
  rw [readFull]
  simp

/-! ## Incremental readers -/

def Incremental (reader : Reader ε α) : Prop :=
  ∀ input value rest more, reader input = .done value rest →
    reader (input ++ more) = .done value (rest ++ more)

theorem incremental_pure : Incremental (pure value : Reader ε α) := by
  intro input result rest more read
  cases read
  rfl

theorem incremental_fail (error : ε) : Incremental (fail error : Reader ε α) := by
  intro input result rest more read
  cases read

theorem Incremental.bind (first : Incremental reader) (second : ∀ value, Incremental (next value)) :
    Incremental (reader >>= next) := by
  intro input value rest more read
  obtain ⟨_, _, readFirst, readSecond⟩ := bind_eq_done read
  rw [bind_done (first _ _ _ more readFirst)]
  exact second _ _ _ _ more readSecond

theorem Incremental.mapError (incremental : Incremental reader) (change : ε → ε') :
    Incremental (reader.mapError change) := by
  intro input value rest more read
  unfold Reader.mapError at read ⊢
  cases first : reader input with
  | done value middle =>
    rw [first] at read
    cases read
    rw [incremental _ _ _ more first]
  | failed error | panicked =>
    rw [first] at read
    cases read

theorem incremental_readFull {size : Nat} : Incremental (readFull size) := by
  intro input value rest more read
  unfold readFull at read ⊢
  split at read
  · rename_i enough
    cases read
    rw [if_pos (by rw [List.length_append]; omega), List.take_append_of_le_length enough,
      List.drop_append_of_le_length enough]
  · cases read

theorem Incremental.not_done_of_short (incremental : Incremental reader) {start missing : Str}
    (whole : reader (start ++ missing) = .done value []) (cut : missing ≠ []) (early : α)
    (rest : Str) : reader start ≠ .done early rest := by
  intro read
  have both := (incremental start early rest missing read).symm.trans whole
  injection both with _ leftover
  exact cut (List.append_eq_nil_iff.mp leftover).2

end Reader

end Golang
