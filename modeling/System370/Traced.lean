import System370.Bytes

/-!
# Outcomes with a trail of names

Evaluating an expression reads symbols, and the cross-reference lists every
reading, also those of an evaluation that fails later on.  `Traced` is the
outcome of an evaluation together with the names it read, in order.  Sequencing
two evaluations joins their trails; after a failure nothing more is read.
-/

namespace System370

/-- An outcome and the symbol names read on the way to it. -/
structure Traced (ε α : Type) where
  names : List Bytes
  result : Except ε α

namespace Traced

variable {ε δ α β : Type}

/-- A value that reads nothing. -/
def done (a : α) : Traced ε α := ⟨[], .ok a⟩

/-- A failure that reads nothing. -/
def fail (e : ε) : Traced ε α := ⟨[], .error e⟩

/-- An outcome that reads nothing. -/
def ofExcept (r : Except ε α) : Traced ε α := ⟨[], r⟩

/-- One evaluation after another. -/
def andThen (t : Traced ε α) (f : α → Traced ε β) : Traced ε β :=
  match t.result with
  | .ok a =>
    let u := f a
    ⟨t.names ++ u.names, u.result⟩
  | .error e => ⟨t.names, .error e⟩

/-- The same outcome with another reason for failure. -/
def mapError (f : ε → δ) (t : Traced ε α) : Traced δ α :=
  ⟨t.names, match t.result with | .ok a => .ok a | .error e => .error (f e)⟩

instance : Monad (Traced ε) where
  pure := done
  bind := andThen

@[simp] theorem result_done (a : α) :
    (done a : Traced ε α).result = .ok a := rfl

/-- After a success the second evaluation decides. -/
theorem result_andThen_ok {t : Traced ε α} {a : α} (h : t.result = .ok a)
    (f : α → Traced ε β) :
    (t.andThen f).result = (f a).result := by
  simp [andThen, h]

/-- A failure ends the sequence. -/
theorem result_andThen_error {t : Traced ε α} {e : ε} (h : t.result = .error e)
    (f : α → Traced ε β) : (t.andThen f).result = .error e := by
  simp [andThen, h]

end Traced

end System370
